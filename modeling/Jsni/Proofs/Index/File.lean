import Mathlib.Data.List.Induction
import Jsni.Index.File
import Jsni.Proofs.Json.Decode

/-!
# What index files hold

All types in the entries of an index file were read from descriptors.
-/

namespace Jsni

open Json.Decode

/-- The type was read from some descriptor. -/
def ErasedType.IsRead (t : ErasedType) : Prop :=
  ∃ text, ErasedType.read text = .ok t

/-- All types of a declaration's members were read from descriptors. -/
structure TypeDecl.IsRead (d : TypeDecl) : Prop where
  fields : ∀ f ∈ d.fields, f.type.IsRead
  methods : ∀ m ∈ d.methods, ∀ t ∈ m.parameters, t.IsRead
  constructors : ∀ ts ∈ d.constructors, ∀ t ∈ ts, t.IsRead

theorem forall_mem_getD {P : α → Prop} {found : Option (List α)} (h : ∀ as ∈ found, ∀ a ∈ as, P a) :
    ∀ a ∈ found.getD [], P a := by
  cases found with
  | none => simp
  | some as => exact h as rfl

theorem ErasedType.yields_decode : Yields ErasedType.decode ErasedType.IsRead := by
  intro d t h
  obtain ⟨text, -, h⟩ := bind_eq_ok_iff.1 h
  split at h
  · rename_i hread
    cases pure_eq_ok_iff.1 h
    exact ⟨text, hread⟩
  · cases h

theorem FieldDecl.yields_format : Yields (record FieldDecl.format) (·.type.IsRead) := by
  refine Yields.record (fun known : PartialField => ∀ t ∈ known.type, t.IsRead) ?_ ?_ ?_ ?_
  · simp [format]
  · intro known key d known' hknown h
    simp only [format] at h
    split at h
    · obtain ⟨name, -, rfl⟩ := bind_pure_eq_ok_iff.1 h
      exact hknown
    · obtain ⟨type, htype, rfl⟩ := bind_pure_eq_ok_iff.1 h
      exact ErasedType.yields_decode.of_once htype
    · obtain ⟨-, -, rfl⟩ := bind_pure_eq_ok_iff.1 h
      exact hknown
  · intro known f hknown h
    obtain ⟨name, -, h⟩ := bind_eq_ok_iff.1 h
    obtain ⟨type, htype, rfl⟩ := bind_pure_eq_ok_iff.1 h
    exact hknown type (mem_of_required htype)
  · intro c c' f h
    simp only [format, StateT.run_bind, StateT.run_pure] at h
    obtain ⟨⟨name, _⟩, -, h⟩ := bind_eq_ok_iff.1 h
    obtain ⟨⟨type, _⟩, htype, h⟩ := bind_eq_ok_iff.1 h
    cases pure_eq_ok_iff.1 h
    exact ErasedType.yields_decode.of_nextField htype

theorem MethodDecl.yields_format :
    Yields (record MethodDecl.format) fun m => ∀ t ∈ m.parameters, t.IsRead := by
  refine Yields.record
    (fun known : PartialMethod => ∀ ts ∈ known.parameters, ∀ t ∈ ts, t.IsRead) ?_ ?_ ?_ ?_
  · simp [format]
  · intro known key d known' hknown h
    simp only [format] at h
    split at h
    · obtain ⟨name, -, rfl⟩ := bind_pure_eq_ok_iff.1 h
      exact hknown
    · obtain ⟨parameters, hparameters, rfl⟩ := bind_pure_eq_ok_iff.1 h
      exact ErasedType.yields_decode.list.of_once hparameters
    · obtain ⟨-, -, rfl⟩ := bind_pure_eq_ok_iff.1 h
      exact hknown
  · intro known m hknown h
    obtain ⟨name, -, rfl⟩ := bind_pure_eq_ok_iff.1 h
    exact forall_mem_getD hknown
  · intro c c' m h
    simp only [format, StateT.run_bind, StateT.run_pure] at h
    obtain ⟨⟨name, _⟩, -, h⟩ := bind_eq_ok_iff.1 h
    obtain ⟨⟨parameters, _⟩, hparameters, h⟩ := bind_eq_ok_iff.1 h
    cases pure_eq_ok_iff.1 h
    exact forall_mem_getD (ErasedType.yields_decode.list.of_nextField? hparameters)

theorem yields_constructorFormat :
    Yields (record constructorFormat) fun ts => ∀ t ∈ ts, t.IsRead := by
  refine Yields.record
    (fun known : Option (List ErasedType) => ∀ ts ∈ known, ∀ t ∈ ts, t.IsRead) ?_ ?_ ?_ ?_
  · simp [constructorFormat]
  · intro known key d known' hknown h
    simp only [constructorFormat] at h
    split at h
    · exact ErasedType.yields_decode.list.of_once h
    · obtain ⟨-, -, rfl⟩ := bind_pure_eq_ok_iff.1 h
      exact hknown
  · intro known ts hknown h
    cases pure_eq_ok_iff.1 h
    exact forall_mem_getD hknown
  · intro c c' ts h
    simp only [constructorFormat, StateT.run_bind, StateT.run_pure] at h
    obtain ⟨⟨parameters, _⟩, hparameters, h⟩ := bind_eq_ok_iff.1 h
    cases pure_eq_ok_iff.1 h
    exact forall_mem_getD (ErasedType.yields_decode.list.of_nextField? hparameters)

theorem TypeEntry.yields_decode : Yields TypeEntry.decode (·.decl.IsRead) := by
  refine Yields.record (fun known : PartialEntry => known.decl.IsRead) ?_ ?_ ?_ ?_
  · exact ⟨by simp [format, PartialEntry.decl], by simp [format, PartialEntry.decl],
      by simp [format, PartialEntry.decl]⟩
  · intro known key d known' hknown h
    obtain ⟨fields, methods, constructors⟩ := hknown
    simp only [format] at h
    split at h
    · obtain ⟨name, -, rfl⟩ := bind_pure_eq_ok_iff.1 h
      exact ⟨fields, methods, constructors⟩
    · obtain ⟨kind, -, rfl⟩ := bind_pure_eq_ok_iff.1 h
      exact ⟨fields, methods, constructors⟩
    · obtain ⟨superclass, -, rfl⟩ := bind_pure_eq_ok_iff.1 h
      exact ⟨fields, methods, constructors⟩
    · obtain ⟨interfaces, -, rfl⟩ := bind_pure_eq_ok_iff.1 h
      exact ⟨fields, methods, constructors⟩
    · obtain ⟨found, hfound, rfl⟩ := bind_pure_eq_ok_iff.1 h
      exact ⟨forall_mem_getD (FieldDecl.yields_format.list.of_once hfound), methods, constructors⟩
    · obtain ⟨found, hfound, rfl⟩ := bind_pure_eq_ok_iff.1 h
      exact ⟨fields, forall_mem_getD (MethodDecl.yields_format.list.of_once hfound), constructors⟩
    · obtain ⟨found, hfound, rfl⟩ := bind_pure_eq_ok_iff.1 h
      exact ⟨fields, methods, forall_mem_getD (yields_constructorFormat.list.of_once hfound)⟩
    · obtain ⟨-, -, rfl⟩ := bind_pure_eq_ok_iff.1 h
      exact ⟨fields, methods, constructors⟩
  · intro known e hknown h
    obtain ⟨name, -, rfl⟩ := bind_pure_eq_ok_iff.1 h
    exact hknown
  · intro c c' e h
    simp only [format, StateT.run_bind, StateT.run_pure] at h
    obtain ⟨⟨name, _⟩, -, h⟩ := bind_eq_ok_iff.1 h
    obtain ⟨⟨kind, _⟩, -, h⟩ := bind_eq_ok_iff.1 h
    obtain ⟨⟨superclass, _⟩, -, h⟩ := bind_eq_ok_iff.1 h
    obtain ⟨⟨interfaces, _⟩, -, h⟩ := bind_eq_ok_iff.1 h
    obtain ⟨⟨fields, _⟩, hfields, h⟩ := bind_eq_ok_iff.1 h
    obtain ⟨⟨methods, _⟩, hmethods, h⟩ := bind_eq_ok_iff.1 h
    obtain ⟨⟨constructors, _⟩, hconstructors, h⟩ := bind_eq_ok_iff.1 h
    cases pure_eq_ok_iff.1 h
    exact ⟨forall_mem_getD (FieldDecl.yields_format.list.of_nextField? hfields),
      forall_mem_getD (MethodDecl.yields_format.list.of_nextField? hmethods),
      forall_mem_getD (yields_constructorFormat.list.of_nextField? hconstructors)⟩

/-! ## Indexes -/

namespace StaticIndex

/-- Of entries of one name the last is stored. -/
theorem stored?_ofEntries (entries : List TypeEntry) (n : String) :
    (ofEntries entries).stored? n = (entries.filter (·.name = n)).getLast? := by
  induction entries using List.reverseRecOn with
  | nil => rfl
  | append_singleton entries entry ih =>
    have htable : (ofEntries (entries ++ [entry])).table = (ofEntries entries).table.store entry :=
      List.foldl_concat ..
    rw [stored?, htable, EntryTable.store, EntryTable.getElem?_insert_eq, ← stored?, ih,
      List.filter_append]
    by_cases hn : n = entry.name
    · simp [hn]
    · simp [hn, Ne.symm hn]

/-- The declarations of an index all come from its entries. -/
theorem exists_of_find?_ofEntries {entries : List TypeEntry} {name : String} {d : TypeDecl}
    (h : (ofEntries entries).find? name = some d) : ⟨name, d⟩ ∈ entries := by
  have hentry : (ofEntries entries).stored? name = some ⟨name, d⟩ := by
    rw [stored?_eq, h, Option.map_some]
  rw [stored?_ofEntries] at hentry
  exact List.mem_of_mem_filter (List.mem_of_getLast? hentry)

theorem yields_fileFormat :
    Yields (record fileFormat) fun entries => ∀ e ∈ entries, e.decl.IsRead := by
  refine Yields.record
    (fun known : Option (List TypeEntry) => ∀ es ∈ known, ∀ e ∈ es, e.decl.IsRead) ?_ ?_ ?_ ?_
  · simp [fileFormat]
  · intro known key d known' hknown h
    simp only [fileFormat] at h
    split at h
    · exact TypeEntry.yields_decode.list.of_once h
    · obtain ⟨-, -, rfl⟩ := bind_pure_eq_ok_iff.1 h
      exact hknown
  · intro known entries hknown h
    cases pure_eq_ok_iff.1 h
    exact forall_mem_getD hknown
  · intro c c' entries h
    simp only [fileFormat, StateT.run_bind, StateT.run_pure] at h
    obtain ⟨⟨found, _⟩, hfound, h⟩ := bind_eq_ok_iff.1 h
    cases pure_eq_ok_iff.1 h
    exact forall_mem_getD (TypeEntry.yields_decode.list.of_nextField? hfound)

theorem isRead_of_ofDocument {document : Json.Document} {s : StaticIndex}
    (h : ofDocument document = .ok s) {name : String} {d : TypeDecl}
    (hd : s.find? name = some d) : d.IsRead := by
  obtain ⟨entries, hentries, rfl⟩ := map_eq_ok_iff.1 h
  exact yields_fileFormat.of_decode hentries _ (exists_of_find?_ofEntries hd)

end StaticIndex

end Jsni
