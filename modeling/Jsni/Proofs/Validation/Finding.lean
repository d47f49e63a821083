import Jsni.Proofs.Computation
import Jsni.Validation

/-!
# From blocks to problems

Which findings there are of a block and of a unit, and what becomes of them in a result.
-/

namespace Jsni

/-! ## Findings -/

namespace Finding

/-- What can be found of a block. -/
inductive IsOf (b : Block) : Finding → Prop where
  | notNative : IsOf b (.notNative b)
  | unterminated : IsOf b (.unterminated b)
  | malformed {m : MalformedReference} :
    b.terminated → .malformed m ∈ scan b.body b.bodyOffset b.owner → IsOf b (.malformed m)
  | resolved {r : Reference} {o : Outcome} :
    b.terminated → .reference r ∈ scan b.body b.bodyOffset b.owner → IsOf b (.resolved r o)

end Finding

namespace TypeIndex

theorem isOf_of_findToken {idx : TypeIndex} {context : ImportContext} {b : Block} {t : Token}
    {f : Finding} (hb : b.terminated) (ht : t ∈ scan b.body b.bodyOffset b.owner)
    (h : idx.findToken context t = .ok f) : f.IsOf b := by
  cases t with
  | malformed m =>
    cases h
    exact .malformed hb ht
  | reference r =>
    rw [findToken] at h
    cases hresolve : idx.resolve context r with
    | error e =>
      rw [hresolve] at h
      cases h
    | ok o =>
      rw [hresolve] at h
      cases h
      exact .resolved hb ht

theorem findBlock_eq_ok_iff {idx : TypeIndex} {context : ImportContext} {b : Block}
    {fs : List Finding} :
    idx.findBlock context b = .ok fs
      ↔ ∃ found, (if b.terminated then
            List.Forall₂ (fun t f => idx.findToken context t = .ok f)
              (scan b.body b.bodyOffset b.owner) found
          else found = [.unterminated b])
        ∧ fs = (if b.isNative then [] else [.notNative b]) ++ found := by
  simp only [findBlock]
  split
  · simp only [bind_eq_ok_iff, mapM_eq_ok_iff, pure_eq_ok_iff]
  · simp only [pure_eq_ok_iff, exists_eq_left]

theorem isOf_of_mem_findBlock {idx : TypeIndex} {context : ImportContext} {b : Block}
    {fs : List Finding} (h : idx.findBlock context b = .ok fs) {f : Finding} (hf : f ∈ fs) :
    f.IsOf b := by
  obtain ⟨found, hfound, rfl⟩ := findBlock_eq_ok_iff.1 h
  rcases List.mem_append.1 hf with hf | hf
  · -- What a method that is not native adds comes before all else.
    split at hf
    · cases hf
    · obtain rfl := List.mem_singleton.1 hf
      exact .notNative
  · split at hfound
    · rename_i hterminated
      obtain ⟨t, ht, hfind⟩ := exists_of_mem_forall₂ hfound hf
      exact isOf_of_findToken hterminated ht hfind
    · rw [hfound] at hf
      obtain rfl := List.mem_singleton.1 hf
      exact .unterminated

theorem findUnit_eq_ok_iff {idx : TypeIndex} {u : SourceUnit} {fs : List Finding} :
    idx.findUnit u = .ok fs
      ↔ ∃ fss, List.Forall₂ (fun b f => idx.findBlock (u.context b) b = .ok f) u.blocks fss
        ∧ fs = fss.flatten := by
  simp only [findUnit, bind_eq_ok_iff, mapM_eq_ok_iff, pure_eq_ok_iff]

theorem exists_block_of_mem_findUnit {idx : TypeIndex} {u : SourceUnit} {fs : List Finding}
    (h : idx.findUnit u = .ok fs) {f : Finding} (hf : f ∈ fs) : ∃ b ∈ u.blocks, f.IsOf b := by
  obtain ⟨fss, hfss, rfl⟩ := findUnit_eq_ok_iff.1 h
  obtain ⟨found, hfound, hf⟩ := List.mem_flatten.1 hf
  obtain ⟨b, hb, hblock⟩ := exists_of_mem_forall₂ hfss hfound
  exact ⟨b, hb, isOf_of_mem_findBlock hblock hf⟩

theorem validate_eq_ok_iff {idx : TypeIndex} {s : Severities} {u : SourceUnit}
    {result : ValidationResult} :
    idx.validate s u = .ok result
      ↔ ∃ fs, idx.findUnit u = .ok fs ∧ result = .ofFindings s u.path fs := by
  unfold validate
  cases idx.findUnit u <;> simp [Except.map, eq_comm]

end TypeIndex

/-! ## Results -/

namespace ValidationResult

theorem addDependency_references (r : ValidationResult) (name : String) :
    (r.addDependency name).references = r.references := by
  unfold addDependency
  split <;> rfl

theorem addDependency_problems (r : ValidationResult) (name : String) :
    (r.addDependency name).problems = r.problems := by
  unfold addDependency
  split <;> rfl

theorem addFinding_references (s : Severities) (r : ValidationResult) (f : Finding) :
    (r.addFinding s f).references = r.references ++ f.reference?.toList := by
  change (f.dependency?.elim r r.addDependency).references ++ _ = _
  cases f.dependency? with
  | none => rfl
  | some name => rw [Option.elim_some, addDependency_references]

theorem addFinding_problems (s : Severities) (r : ValidationResult) (f : Finding) :
    (r.addFinding s f).problems = r.problems ++ (f.problem? s).toList := by
  change (f.dependency?.elim r r.addDependency).problems ++ _ = _
  cases f.dependency? with
  | none => rfl
  | some name => rw [Option.elim_some, addDependency_problems]

theorem foldl_addFinding_references (s : Severities) (r : ValidationResult) (fs : List Finding) :
    (fs.foldl (addFinding s) r).references = r.references ++ fs.filterMap Finding.reference? := by
  induction fs generalizing r with
  | nil => simp
  | cons f fs ih =>
    rw [List.foldl_cons, ih, addFinding_references, List.append_assoc, List.filterMap_cons]
    cases f.reference? <;> rfl

theorem foldl_addFinding_problems (s : Severities) (r : ValidationResult) (fs : List Finding) :
    (fs.foldl (addFinding s) r).problems = r.problems ++ fs.filterMap (Finding.problem? s) := by
  induction fs generalizing r with
  | nil => simp
  | cons f fs ih =>
    rw [List.foldl_cons, ih, addFinding_problems, List.append_assoc, List.filterMap_cons]
    cases f.problem? s <;> rfl

theorem ofFindings_references (s : Severities) (path : Path) (fs : List Finding) :
    (ofFindings s path fs).references = fs.filterMap Finding.reference? :=
  foldl_addFinding_references s { path } fs

theorem ofFindings_problems (s : Severities) (path : Path) (fs : List Finding) :
    (ofFindings s path fs).problems = fs.filterMap (Finding.problem? s) :=
  foldl_addFinding_problems s { path } fs

end ValidationResult

/-! ## Spans -/

namespace Finding

/-- Offset and length of what a finding is about. -/
def span : Finding → Nat × Nat
  | notNative b    => (b.offset, b.length)
  | unterminated b => (b.offset, b.length)
  | malformed m    => (m.offset, m.length)
  | resolved r _   => (r.offset, r.length)

theorem offset_length_of_report {s : Severities} {kind : ProblemKind} {offset length : Nat}
    {args typeDependencies : List String} {p : Problem}
    (h : s.report kind offset length args typeDependencies = some p) :
    (offset, length) = (p.offset, p.length) := by
  unfold Severities.report at h
  split at h
  · cases h
  · cases h
    rfl

theorem span_of_problem? {s : Severities} {f : Finding} {p : Problem} (h : f.problem? s = some p) :
    f.span = (p.offset, p.length) := by
  cases f with
  | notNative b => exact offset_length_of_report h
  | unterminated b => exact offset_length_of_report h
  | malformed m => exact offset_length_of_report h
  | resolved r o =>
    -- Every outcome that is reported is reported where the reference stands.
    simp only [problem?, Severities.reportOutcome] at h
    split at h
    · exact offset_length_of_report h
    · exact offset_length_of_report h
    · exact offset_length_of_report h
    · exact offset_length_of_report h
    · cases h

end Finding

end Jsni
