import Jsni.Proofs.Index.File
import Jsni.Proofs.Index.Shadowing

/-!
# The history of an entry

Edits act type by type. What an index holds of a type is what the edits of this type have made of
its entry, one after the other, so edits of different types can change places. Entries stay under
the names that they have. The members of a type pile up from the last entry inserted for it on, and
an index file leaves the last entry of each name.
-/

namespace Jsni.StaticIndex

/-! ## What one edit does to an entry -/

namespace Edit

/-- The edit stores an entry of the given name in place of what was there. -/
def Inserts (n : String) (e : Edit) : Prop :=
  ∃ d, e = insertEntry ⟨n, d⟩

def addedFields : Edit → List FieldDecl
  | addField _ name type => [⟨name, .ofSpelling type⟩]
  | _                    => []

def addedMethods : Edit → List MethodDecl
  | addMethod _ name parameters => [⟨name, parameters.map .ofSpelling⟩]
  | _                           => []

def addedConstructors : Edit → List (List ErasedType)
  | addConstructor _ parameters => [parameters.map .ofSpelling]
  | _                           => []

variable {e : Edit} {n : String} {d : TypeDecl}

theorem change_of_not_inserts (he : ¬ e.Inserts e.subject) :
    (e.change d).fields = d.fields ++ e.addedFields
      ∧ (e.change d).methods = d.methods ++ e.addedMethods
      ∧ (e.change d).constructors = d.constructors ++ e.addedConstructors := by
  cases e with
  | insertEntry entry => exact absurd ⟨entry.decl, rfl⟩ he
  | _ => simp [change, addedFields, addedMethods, addedConstructors]

end Edit

/-! ## Runs of edits -/

theorem applyAll_append (s : StaticIndex) (before after : List Edit) :
    s.applyAll (before ++ after) = (s.applyAll before).applyAll after :=
  List.foldl_append ..

/-- The entry of a type after a run is what the edits of the type have made of it. -/
theorem stored?_applyAll (s : StaticIndex) (edits : List Edit) (n : String) :
    (s.applyAll edits).stored? n
      = (edits.filter (·.subject = n)).foldl (fun stored e => some (e.revise stored))
          (s.stored? n) := by
  induction edits generalizing s with
  | nil => rfl
  | cons e edits ih =>
    have hrest : (s.applyAll (e :: edits)).stored? n = _ := ih (s.apply e)
    rw [hrest, stored?_apply]
    by_cases he : e.subject = n
    · simp [he]
    · simp [he, Ne.symm he]

theorem stored?_applyAll_own (s : StaticIndex) (edits : List Edit) (n : String) :
    (s.applyAll edits).stored? n = (s.applyAll (edits.filter (·.subject = n))).stored? n := by
  simp [stored?_applyAll]

/-- Indexes with the same entries give the same answers. -/
theorem toIndex_congr {s s' : StaticIndex} (hentries : ∀ n, s.stored? n = s'.stored? n) :
    s.toIndex = s'.toIndex := by
  have hfind : s.find? = s'.find? := by
    funext n
    rw [find?, find?, hentries]
  have hnames : s.names = s'.names :=
    (Std.TreeMap.Equiv.of_forall_constGet?_eq hentries).keys_eq
  have hheaders : s'.SameHeaders s := fun n => congrArg _ (congrFun hfind n).symm
  have htypes : s.typeOf? = s'.typeOf? := hheaders.sameTypes.typeOf?_eq
  have hclasses : s.superclass? = s'.superclass? :=
    congrArg Hierarchy.superclass? hheaders.hierarchy_eq
  have hlisted : s.interfacesOf = s'.interfacesOf :=
    congrArg Hierarchy.interfaces hheaders.hierarchy_eq
  simp only [toIndex, hnames, htypes, hclasses, hlisted, constructorsOf_eq, methodsOf_eq,
    fieldsOf_eq, hfind]

/-- Neighbouring edits of different types can change places. -/
theorem stored?_applyAll_swap {e e' : Edit} (hne : e.subject ≠ e'.subject) (s : StaticIndex)
    (before after : List Edit) (n : String) :
    (s.applyAll (before ++ e' :: e :: after)).stored? n
      = (s.applyAll (before ++ e :: e' :: after)).stored? n := by
  -- No type has both edits among its own.
  have hown : (before ++ e' :: e :: after).filter (·.subject = n)
      = (before ++ e :: e' :: after).filter (·.subject = n) := by
    by_cases he : e.subject = n
    · have he' : e'.subject ≠ n := fun h => hne (he.trans h.symm)
      simp [he, he']
    · simp [List.filter_cons, he]
  rw [stored?_applyAll, stored?_applyAll, hown]

/-! ## Members -/

/-- A declaration has the members of another and after them, in order, those that edits add. -/
structure HasAdded (d : TypeDecl) (edits : List Edit) (d' : TypeDecl) : Prop where
  fields : d'.fields = d.fields ++ edits.flatMap Edit.addedFields
  methods : d'.methods = d.methods ++ edits.flatMap Edit.addedMethods
  constructors : d'.constructors = d.constructors ++ edits.flatMap Edit.addedConstructors

theorem hasAdded_nil (d : TypeDecl) : HasAdded d [] d :=
  ⟨by simp, by simp, by simp⟩

theorem hasAdded_cons {d d' : TypeDecl} {e : Edit} {edits : List Edit}
    (he : ¬ e.Inserts e.subject) (hrest : HasAdded (e.change d) edits d') :
    HasAdded d (e :: edits) d' := by
  obtain ⟨hfields, hmethods, hconstructors⟩ := e.change_of_not_inserts (d := d) he
  refine ⟨?_, ?_, ?_⟩
  · rw [hrest.fields, hfields, List.flatMap_cons, List.append_assoc]
  · rw [hrest.methods, hmethods, List.flatMap_cons, List.append_assoc]
  · rw [hrest.constructors, hconstructors, List.flatMap_cons, List.append_assoc]

/-- Until the next insertion the members of a type only grow, at their end. -/
theorem hasAdded_applyAll {edits : List Edit} {n : String} (hnone : ∀ e ∈ edits, ¬ e.Inserts n)
    (s : StaticIndex) :
    HasAdded ((s.find? n).getD {}) (edits.filter (·.subject = n))
      (((s.applyAll edits).find? n).getD {}) := by
  induction edits generalizing s with
  | nil => exact hasAdded_nil _
  | cons e edits ih =>
    obtain ⟨he, hedits⟩ := List.forall_mem_cons.1 hnone
    have hrest := ih hedits (s.apply e)
    by_cases hn : e.subject = n
    · subst hn
      rw [find?_apply, if_pos rfl] at hrest
      rw [List.filter_cons_of_pos (by simp)]
      exact hasAdded_cons he hrest
    · rw [find?_apply_of_ne (Ne.symm hn)] at hrest
      rw [List.filter_cons_of_neg (by simpa using hn)]
      exact hrest

/-- The entry last inserted for a type holds `d`, or none was inserted and `d` is what the index had
of the type before. The edits `since` come after that. -/
inductive LastStored (s : StaticIndex) (n : String) (edits : List Edit) :
    TypeDecl → List Edit → Prop where
  | inserted (before : List Edit) {since : List Edit} {d : TypeDecl} :
    edits = before ++ .insertEntry ⟨n, d⟩ :: since → (∀ e ∈ since, ¬ e.Inserts n) →
      LastStored s n edits d since
  | atFirst : (∀ e ∈ edits, ¬ e.Inserts n) → LastStored s n edits ((s.find? n).getD {}) edits

theorem exists_lastStored (s : StaticIndex) (n : String) (edits : List Edit) :
    ∃ d since, s.LastStored n edits d since := by
  induction edits with
  | nil => exact ⟨_, _, .atFirst (by simp)⟩
  | cons e edits ih =>
    obtain ⟨d, since, hstored⟩ := ih
    cases hstored with
    | inserted before hedits hsince =>
      exact ⟨d, since, .inserted (e :: before) (hedits ▸ List.cons_append.symm) hsince⟩
    | atFirst hnone =>
      by_cases he : e.Inserts n
      · obtain ⟨d', rfl⟩ := he
        exact ⟨d', edits, .inserted [] (List.nil_append _).symm hnone⟩
      · exact ⟨_, _, .atFirst (List.forall_mem_cons.2 ⟨he, hnone⟩)⟩

theorem LastStored.hasAdded {s : StaticIndex} {n : String} {edits since : List Edit} {d : TypeDecl}
    (hstored : s.LastStored n edits d since) :
    HasAdded d (since.filter (·.subject = n)) (((s.applyAll edits).find? n).getD {}) := by
  cases hstored with
  | inserted before hedits hsince =>
    let stored := (s.applyAll before).apply (.insertEntry ⟨n, d⟩)
    have hfind : stored.find? n = some d := (find?_apply ..).trans (if_pos rfl)
    have hgrown := hasAdded_applyAll hsince stored
    rw [hfind] at hgrown
    rw [hedits, applyAll_append]
    exact hgrown
  | atFirst hnone => exact hasAdded_applyAll hnone s

/-- An index lists for a type these members of its own, of fields and methods those of a name. -/
structure Lists (idx : TypeIndex) (n : String) (fields : List FieldDecl)
    (methods : List MethodDecl) (constructors : List (List ErasedType)) : Prop where
  fields : ∀ t name, t.name = n →
    idx.fields t name = .ok ((fields.filter (·.name = name)).map (·.toField n))
  methods : ∀ t name, t.name = n →
    idx.methods t name = .ok ((methods.filter (·.name = name)).map (·.toMethod n))
  constructors : ∀ t, t.name = n → idx.constructors t = .ok (constructors.map (.constructor n))

theorem lists_toIndex (s : StaticIndex) (n : String) :
    let d := (s.find? n).getD {}
    Lists s.toIndex n d.fields d.methods d.constructors := by
  intro d
  refine ⟨?_, ?_, ?_⟩
  · rintro t name rfl
    simp only [toIndex, fieldsOf_eq, d]
    cases s.find? t.name <;> rfl
  · rintro t name rfl
    simp only [toIndex, methodsOf_eq, d]
    cases s.find? t.name <;> rfl
  · rintro t rfl
    simp only [toIndex, constructorsOf_eq, d]
    cases s.find? t.name <;> rfl

theorem LastStored.lists {s : StaticIndex} {n : String} {edits since : List Edit} {d : TypeDecl}
    (hstored : s.LastStored n edits d since) :
    let own := since.filter (·.subject = n)
    Lists (s.applyAll edits).toIndex n (d.fields ++ own.flatMap Edit.addedFields)
      (d.methods ++ own.flatMap Edit.addedMethods)
      (d.constructors ++ own.flatMap Edit.addedConstructors) := by
  intro own
  have hgrown := hstored.hasAdded
  rw [← hgrown.fields, ← hgrown.methods, ← hgrown.constructors]
  exact lists_toIndex _ n

/-! ## Index files -/

/-- Edits act type by type: each type has the entry that its own edits make, neighbouring edits of
different types can change places, every entry has the name that it is stored under, which each step
of building or loading a table keeps, and the members of a type are those of the last entry inserted
for it and those added since. An index file leaves the last entry of each name. -/
theorem entries_by_subject (s : StaticIndex) (edits : List Edit) :
    (∀ n, (s.applyAll edits).stored? n = (s.applyAll (edits.filter (·.subject = n))).stored? n
      ∧ (s.applyAll edits).stored? n
        = (edits.filter (·.subject = n)).foldl (fun stored e => some (e.revise stored))
            (s.stored? n))
    ∧ (∀ before after e e', edits = before ++ e :: e' :: after → e.subject ≠ e'.subject →
        let swapped := s.applyAll (before ++ e' :: e :: after)
        (∀ n, swapped.stored? n = (s.applyAll edits).stored? n)
          ∧ swapped.toIndex = (s.applyAll edits).toIndex)
    ∧ (∀ n entry, (s.applyAll edits).stored? n = some entry → entry.name = n)
    ∧ (EntryTable.IsKeyed ∅ ∧ (∀ entries, (EntryTable.ofEntries entries).IsKeyed)
      ∧ ∀ table : EntryTable, table.IsKeyed →
          (∀ entry, (table.store entry).IsKeyed) ∧ ∀ e, (table.apply e).IsKeyed)
    ∧ (∀ n t, (s.applyAll edits).toIndex.findType n = .ok (some t) → t.name = n)
    ∧ (∀ n, (∃ d since, s.LastStored n edits d since) ∧
        ∀ d since, s.LastStored n edits d since →
          let own := since.filter (·.subject = n)
          Lists (s.applyAll edits).toIndex n (d.fields ++ own.flatMap Edit.addedFields)
            (d.methods ++ own.flatMap Edit.addedMethods)
            (d.constructors ++ own.flatMap Edit.addedConstructors))
    ∧ ∀ document entries, document.decode (Json.Decode.record fileFormat) = .ok entries →
        ∃ loaded, ofDocument document = .ok loaded
          ∧ ∀ n, loaded.stored? n = (entries.filter (·.name = n)).getLast? := by
  refine ⟨?_, ?_, ?_, ?_, ?_, ?_, ?_⟩
  · intro n
    exact ⟨stored?_applyAll_own s edits n, stored?_applyAll s edits n⟩
  · rintro before after e e' rfl hne swapped
    have hentries := stored?_applyAll_swap hne s before after
    exact ⟨hentries, toIndex_congr hentries⟩
  · exact (s.applyAll edits).keyed
  · refine ⟨EntryTable.isKeyed_empty, EntryTable.isKeyed_ofEntries, ?_⟩
    exact fun table htable => ⟨htable.store, htable.apply⟩
  · intro n t ht
    exact name_eq_of_typeOf? (Except.ok.inj ht)
  · intro n
    exact ⟨s.exists_lastStored n edits, fun d since hstored => hstored.lists⟩
  · intro document entries hread
    refine ⟨ofEntries entries, ?_, stored?_ofEntries entries⟩
    rw [ofDocument, hread]
    rfl

/-- Edits of two types in turn, with an insertion and changes of kind between the members added. -/
def interleavedEdits : List Edit := [
  .addMethod "a.A" "lost" [],
  .insertEntry ⟨"a.A", { kind := .enumKind, methods := [⟨"m", []⟩] }⟩,
  .addMethod "a.B" "m" ["int"],
  .addClass "a.A" (some "a.B"),
  .addMethod "a.A" "m" ["int"],
  .addConstructor "a.A" [],
  .addInterface "a.A" [],
  .addField "a.A" "x" "long"]

theorem entries_by_subject_interleaved :
    let s := ofEntries [⟨"a.B", { methods := [⟨"m", []⟩] }⟩]
    let idx := (s.applyAll interleavedEdits).toIndex
    let text := "\x7b\"types\": [\x7b\"fqn\": \"a.A\", \"kind\": \"enum\"\x7d,"
      ++ " \x7b\"fqn\": \"a.B\"\x7d, \x7b\"fqn\": \"a.A\"\x7d]\x7d"
    idx.methods ⟨"a.A", .interfaceKind⟩ "m"
        = .ok [⟨"m", "a.A", []⟩, ⟨"m", "a.A", [.primitive .int]⟩]
      ∧ idx.methods ⟨"a.A", .interfaceKind⟩ "lost" = .ok []
      ∧ idx.fields ⟨"a.A", .interfaceKind⟩ "x" = .ok [⟨"x", "a.A", .primitive .long⟩]
      ∧ idx.constructors ⟨"a.A", .interfaceKind⟩ = .ok [⟨"new", "a.A", []⟩]
      ∧ idx.methods ⟨"a.B", .classKind⟩ "m"
        = .ok [⟨"m", "a.B", []⟩, ⟨"m", "a.B", [.primitive .int]⟩]
      ∧ (s.applyAll (interleavedEdits.take 2 ++ .addClass "a.A" (some "a.B") ::
          .addMethod "a.B" "m" ["int"] :: interleavedEdits.drop 4)).toIndex = idx
      ∧ ∃ loaded, ofJson text = .ok loaded
        ∧ loaded.stored? "a.A" = some ⟨"a.A", {}⟩ := by
  intro s idx text
  obtain ⟨-, hswap, -, -, -, hmembers, hfile⟩ := entries_by_subject s interleavedEdits
  have hA := (hmembers "a.A").2 _ (interleavedEdits.drop 2)
    (.inserted (interleavedEdits.take 1) rfl (by simp [interleavedEdits, Edit.Inserts]))
  have hB := (hmembers "a.B").2 _ interleavedEdits
    (.atFirst (by simp [interleavedEdits, Edit.Inserts]))
  have hread : (Json.Document.ofText text).decode (Json.Decode.record fileFormat)
      = .ok [⟨"a.A", { kind := .enumKind }⟩, ⟨"a.B", {}⟩, ⟨"a.A", {}⟩] := by decide +kernel
  refine ⟨?_, ?_, ?_, ?_, ?_, ?_, ?_⟩
  · rw [hA.methods _ _ rfl]
    cbv
  · rw [hA.methods _ _ rfl]
    cbv
  · rw [hA.fields _ _ rfl]
    cbv
  · rw [hA.constructors _ rfl]
    cbv
  · rw [hB.methods _ _ rfl]
    cbv
  · exact (hswap (interleavedEdits.take 2) (interleavedEdits.drop 4) (.addMethod "a.B" "m" ["int"])
      (.addClass "a.A" (some "a.B")) rfl (by decide)).2
  · obtain ⟨loaded, hloaded, hlast⟩ := hfile _ _ hread
    exact ⟨loaded, hloaded, hlast "a.A"⟩

end Jsni.StaticIndex
