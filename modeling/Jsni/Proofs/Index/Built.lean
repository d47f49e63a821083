import Jsni.Proofs.Erasure.Spelling
import Jsni.Proofs.Index.Entry
import Jsni.Proofs.Index.History

/-!
# Indexes built from spellings

An index file holds descriptors, edits hold spellings. What edits build from spellings of plain
names can be written as an index file, and the index that is loaded from it gives the same answers.
-/

namespace Jsni

namespace StaticIndex

open Json.Decode

/-! ## Writing an index -/

/-- The entries, in the order of their names. -/
def entries (s : StaticIndex) : List TypeEntry :=
  s.table.toList.map (·.2)

/-- An index file of all entries. -/
def toJson (s : StaticIndex) : Json :=
  .object [("types", .array (s.entries.map TypeEntry.toJson))]

theorem stored?_eq_some_iff {s : StaticIndex} {n : String} {e : TypeEntry} :
    s.stored? n = some e ↔ e ∈ s.entries ∧ e.name = n := by
  have hlisted : ∀ m, s.stored? m = some e ↔ (m, e) ∈ s.table.toList :=
    fun m => Std.TreeMap.mem_toList_iff_getElem?_eq_some.symm
  rw [entries, List.mem_map]
  constructor
  · intro he
    exact ⟨⟨(n, e), (hlisted n).1 he, rfl⟩, name_of_stored? he⟩
  · rintro ⟨⟨⟨m, _⟩, hm, rfl⟩, rfl⟩
    have he := (hlisted m).2 hm
    exact name_of_stored? he ▸ he

theorem mem_entries_iff {s : StaticIndex} {e : TypeEntry} :
    e ∈ s.entries ↔ s.find? e.name = some e.decl := by
  have hstored : s.stored? e.name = some e ↔ e ∈ s.entries := by simp [stored?_eq_some_iff]
  rw [← hstored, stored?_eq]
  obtain ⟨name, decl⟩ := e
  cases s.find? name <;> simp

/-- The entries make up the index. -/
theorem stored?_ofEntries_entries (s : StaticIndex) (n : String) :
    (ofEntries s.entries).stored? n = s.stored? n := by
  have hmem : ∀ e, e ∈ s.entries.filter (·.name = n) ↔ s.stored? n = some e := by
    intro e
    rw [List.mem_filter, stored?_eq_some_iff, decide_eq_true_iff]
  rw [stored?_ofEntries]
  cases hlast : (s.entries.filter (·.name = n)).getLast? with
  | some e => exact ((hmem e).1 (List.mem_of_getLast? hlast)).symm
  | none =>
    rw [List.getLast?_eq_none_iff] at hlast
    rw [hlast] at hmem
    exact (Option.eq_none_iff_forall_ne_some.2 fun e he => by simpa using (hmem e).2 he).symm

/-- All types of members in the index have plain class names. -/
def HasPlainNames (s : StaticIndex) : Prop :=
  ∀ e ∈ s.entries, e.decl.HasPlainNames

/-- An index of plain names is loaded from the file that it is written as. -/
theorem HasPlainNames.exists_ofDocument_draft {s : StaticIndex} (h : s.HasPlainNames) :
    ∃ loaded, ofDocument ⟨s.toJson.draft, false⟩ = .ok loaded ∧ loaded.toIndex = s.toIndex := by
  have htypes := (ReadsBack.list fun e he => TypeEntry.readsBack (h e he)).once "types"
  have hfile : record fileFormat s.toJson.draft = .ok s.entries := by
    refine record_draft (some s.entries) ?_ rfl
    simp [fileFormat, htypes]
  refine ⟨ofEntries s.entries, ?_, toIndex_congr s.stored?_ofEntries_entries⟩
  exact map_eq_ok_iff.2 ⟨s.entries, bind_eq_ok_iff.2 ⟨s.entries, hfile, rfl⟩, rfl⟩

/-! ## Building an index -/

namespace Edit

/-- All types that the edit adds have plain names once they are read. -/
def AddsPlainNames : Edit → Prop
  | addMethod _ _ parameters    => ∀ p ∈ parameters, (ErasedType.ofSpelling p).HasPlainName
  | addConstructor _ parameters => ∀ p ∈ parameters, (ErasedType.ofSpelling p).HasPlainName
  | addField _ _ type           => (ErasedType.ofSpelling type).HasPlainName
  | insertEntry entry           => entry.decl.HasPlainNames
  | _                           => True

theorem AddsPlainNames.change {e : Edit} {d : TypeDecl} (he : e.AddsPlainNames)
    (hd : d.HasPlainNames) : (e.change d).HasPlainNames := by
  obtain ⟨hfields, hmethods, hconstructors⟩ := hd
  cases e with
  | addClass => exact ⟨hfields, hmethods, hconstructors⟩
  | addInterface => exact ⟨hfields, hmethods, hconstructors⟩
  | addSuperinterface => exact ⟨hfields, hmethods, hconstructors⟩
  | addMethod n name parameters =>
    refine ⟨hfields, ?_, hconstructors⟩
    refine List.forall_mem_append.2 ⟨hmethods, List.forall_mem_singleton.2 ?_⟩
    exact List.forall_mem_map.2 he
  | addConstructor n parameters =>
    refine ⟨hfields, hmethods, ?_⟩
    refine List.forall_mem_append.2 ⟨hconstructors, List.forall_mem_singleton.2 ?_⟩
    exact List.forall_mem_map.2 he
  | addField n name type =>
    exact ⟨List.forall_mem_append.2 ⟨hfields, List.forall_mem_singleton.2 he⟩, hmethods,
      hconstructors⟩
  | insertEntry entry => exact he

end Edit

theorem hasPlainNames_empty : empty.HasPlainNames := by
  intro e he
  cases mem_entries_iff.1 he

theorem HasPlainNames.apply {s : StaticIndex} {e : Edit} (hs : s.HasPlainNames)
    (he : e.AddsPlainNames) : (s.apply e).HasPlainNames := by
  rintro ⟨n, d⟩ hd
  rw [mem_entries_iff, find?_apply] at hd
  split at hd
  · cases hd
    refine he.change ?_
    -- The declaration that the edit starts from is one of the index or has no members.
    cases hstored : s.find? e.subject with
    | none => exact ⟨by simp, by simp, by simp⟩
    | some d => exact hs ⟨e.subject, d⟩ (mem_entries_iff.2 hstored)
  · exact hs ⟨n, d⟩ (mem_entries_iff.2 hd)

theorem HasPlainNames.applyAll {s : StaticIndex} {edits : List Edit} (hs : s.HasPlainNames)
    (hedits : ∀ e ∈ edits, e.AddsPlainNames) : (s.applyAll edits).HasPlainNames := by
  induction edits generalizing s with
  | nil => exact hs
  | cons e edits ih =>
    obtain ⟨he, hedits⟩ := List.forall_mem_cons.1 hedits
    exact ih (hs.apply he) hedits

end StaticIndex

open Text ErasedType

/-- The printed form of the type of a spelling is a spelling of it. White space around a spelling
and around the `[]` after it makes no difference. A spelling lays out a name and a number of `[]`,
its type is an array of that depth, of a primitive type just if the name is a keyword. Types of
plain names are read back from the descriptor of their list, so an index that is built from
spellings gives the same answers as the one loaded from the file that it is written as, with any
reader and printer of texts that are inverse. -/
theorem ofSpelling_normal_form :
    (∀ s, ofSpelling (ofSpelling s).display = ofSpelling s)
      ∧ (∀ s u v w : String, (∀ c ∈ u.toList, isBlank c) → (∀ c ∈ v.toList, isBlank c) →
          (∀ c ∈ w.toList, isBlank c) →
            ofSpelling (u ++ s ++ v ++ "[]" ++ w) = .array (ofSpelling s))
      ∧ (∀ s : String, (∃ name n, IsBareName name ∧ LaysOut name n s.toList) ∧
          ∀ name n, IsBareName name → LaysOut name n s.toList →
            (ofSpelling s).base = ofName name ∧ (ofSpelling s).dims = n
              ∧ ∀ p, (ofSpelling s).base = .primitive p ↔ name = p.keyword.toList)
      ∧ (∀ spellings : List String, (∀ s ∈ spellings, (ofSpelling s).HasPlainName) →
          readList (descriptorOf (spellings.map ofSpelling)) = .ok (spellings.map ofSpelling))
      ∧ ∀ read print, Json.ReadsPrinted read print →
          ∀ edits : List StaticIndex.Edit, (∀ e ∈ edits, e.AddsPlainNames) →
            let built := StaticIndex.empty.applyAll edits
            ∃ loaded, StaticIndex.ofDocument (read (print built.toJson)) = .ok loaded
              ∧ loaded.toIndex = built.toIndex := by
  refine ⟨?_, ?_, ?_, ?_, ?_⟩
  · intro s
    exact ofSpelling_display_iff.2 (hasBareName_ofSpellingChars s.toList)
  · intro s u v w hu hv hw
    exact ofSpelling_append_brackets hu hv hw s
  · intro s
    refine ⟨exists_laysOut s.toList, fun name n hname hlayout => ?_⟩
    obtain ⟨hbase, hdims⟩ := hlayout.base_dims hname
    refine ⟨hbase, hdims, fun p => ?_⟩
    rw [ofSpelling, hbase]
    exact ofName_eq_primitive_iff
  · intro spellings hplain
    exact readList_descriptorOf_iff.2 (List.forall_mem_map.2 hplain)
  · intro read print hinverse edits hedits built
    rw [hinverse]
    exact (StaticIndex.hasPlainNames_empty.applyAll hedits).exists_ofDocument_draft

/-- Spellings of which two name one type, with white space of several kinds. -/
def spacedSpellings : List String :=
  ["\u00a0a.B$C []\t[]\u3000", "a.B$C[][]", "\u2003int"]

def spacedEdits : List StaticIndex.Edit :=
  [.addMethod "a.A" "m" spacedSpellings, .addField "a.A" "x" "long\n[]"]

theorem ofSpelling_normal_form_spaced :
    let t : ErasedType := .array (.array (.named "a.B$C"))
    spacedSpellings.map ofSpelling = [t, t, .primitive .int]
      ∧ ofSpelling ("\t" ++ "\u2003int" ++ "\u3000" ++ "[]" ++ " ")
        = .array (ofSpelling "\u2003int")
      ∧ (ofSpelling "\u2003int").base = .primitive .int
      ∧ readList (descriptorOf (spacedSpellings.map ofSpelling))
        = .ok (spacedSpellings.map ofSpelling)
      ∧ ∃ loaded,
        StaticIndex.ofJson (StaticIndex.empty.applyAll spacedEdits).toJson.render = .ok loaded
          ∧ loaded.toIndex = (StaticIndex.empty.applyAll spacedEdits).toIndex := by
  intro t
  obtain ⟨-, hbrackets, hlayouts, hread, hindex⟩ := ofSpelling_normal_form
  have htypes : spacedSpellings.map ofSpelling = [t, t, .primitive .int] := by cbv
  have hplain : ∀ s ∈ spacedSpellings, (ofSpelling s).HasPlainName := by
    have hall : ∀ u ∈ spacedSpellings.map ofSpelling, u.HasPlainName := by
      rw [htypes]
      simp [HasPlainName, t, base]
    exact List.forall_mem_map.1 hall
  have hlayout : LaysOut "int".toList 0 (['\u2003'] ++ "int".toList ++ []) :=
    .name (List.all_eq_true.1 (by decide)) (by simp)
  refine ⟨htypes, ?_, ?_, hread spacedSpellings hplain,
    hindex _ _ Json.readsPrinted_render spacedEdits ?_⟩
  · exact hbrackets _ _ _ _ (List.all_eq_true.1 (by decide)) (List.all_eq_true.1 (by decide))
      (List.all_eq_true.1 (by decide))
  · obtain ⟨-, -, hprimitive⟩ := (hlayouts "\u2003int").2 _ 0 (isBareName_keyword .int) hlayout
    exact (hprimitive .int).2 rfl
  · refine List.forall_mem_cons.2 ⟨hplain, List.forall_mem_singleton.2 ?_⟩
    have hlong : ofSpelling "long\n[]" = .array (.primitive .long) := by cbv
    simp [StaticIndex.Edit.AddsPlainNames, hlong, HasPlainName, base]

end Jsni
