import Jsni.Proofs.Validation.Result

/-!
# What severities decide

Two validations of a unit under different severities differ in their problems alone: which of them
are left out, and how grave the others are.
-/

namespace Jsni

/-! ## Grading anew -/

namespace Severities

/-- Every kind of problem has the same severity. -/
def uniform (severity : Severity) : Severities :=
  default.overrideAll (ProblemKind.all.map (·, severity))

@[simp] theorem of_uniform (severity : Severity) (kind : ProblemKind) :
    (uniform severity).of kind = severity := by
  cases kind <;> rfl

/-- A problem with its severity set as configured, and all else as it is. -/
def regrade (s : Severities) (p : Problem) : Problem :=
  { p with severity := s.of p.kind }

variable (s t : Severities)

theorem regrade_blockProblems (b : Block) :
    (t.blockProblems b).map s.regrade = s.blockProblems b := by
  unfold blockProblems
  cases b.isNative <;> cases b.terminated <;> rfl

theorem regrade_outcomeProblem? (r : Reference) (o : Outcome) :
    (t.outcomeProblem? r o).map s.regrade = s.outcomeProblem? r o := by
  cases o <;> rfl

theorem regrade_tokenProblem? (outcome : Reference → Outcome) (tok : Token) :
    (t.tokenProblem? outcome tok).map s.regrade = s.tokenProblem? outcome tok := by
  cases tok with
  | malformed m => rfl
  | reference r => exact s.regrade_outcomeProblem? t r (outcome r)

/-- The problems before any is ignored are the same but for their severities. -/
theorem regrade_problems (outcome : Block → Reference → Outcome) (bs : List Block) :
    (t.problems outcome bs).map s.regrade = s.problems outcome bs := by
  simp only [problems, List.map_flatMap, List.map_append, List.map_filterMap,
    regrade_blockProblems, regrade_tokenProblem?]

theorem severity_of_mem_problems {outcome : Block → Reference → Outcome} {bs : List Block}
    {p : Problem} (hp : p ∈ s.problems outcome bs) : p.severity = s.of p.kind := by
  rw [← s.regrade_problems s] at hp
  obtain ⟨q, -, rfl⟩ := List.mem_map.1 hp
  rfl

/-- Nothing is left out if every problem is an error. -/
theorem filter_problems_uniform (outcome : Block → Reference → Outcome) (bs : List Block) :
    ((uniform .error).problems outcome bs).filter (·.severity ≠ .ignore)
      = (uniform .error).problems outcome bs := by
  refine List.filter_eq_self.2 fun p hp => ?_
  rw [severity_of_mem_problems _ hp, of_uniform]
  rfl

theorem filter_problems_eq_map (outcome : Block → Reference → Outcome) (bs : List Block) :
    (s.problems outcome bs).filter (·.severity ≠ .ignore)
      = (((uniform .error).problems outcome bs).filter (s.of ·.kind ≠ .ignore)).map s.regrade := by
  rw [← s.regrade_problems (uniform .error), List.filter_map]
  rfl

end Severities

/-! ## Two validations -/

namespace TypeIndex

/-- Severities decide neither about failure nor about references and types depended on. The
problems are those of a validation where all are errors, without the ignored ones and with their
severities set. -/
theorem validate_severities (idx : TypeIndex) (u : SourceUnit) (s₁ s₂ : Severities) :
    (∀ e, idx.validate s₁ u = .error e ↔ idx.validate s₂ u = .error e)
      ∧ ∀ r₁, idx.validate s₁ u = .ok r₁ → ∃ r₂ strict,
        idx.validate s₂ u = .ok r₂
          ∧ r₁.references = r₂.references
          ∧ r₁.typeDependencies = r₂.typeDependencies
          ∧ idx.validate (.uniform .error) u = .ok strict
          ∧ r₁.problems = (strict.problems.filter (s₁.of ·.kind ≠ .ignore)).map s₁.regrade := by
  constructor
  · intro e
    rw [← failure?_eq_some_iff, ← failure?_eq_some_iff, failure?_validate, failure?_validate]
  · intro r₁ h₁
    obtain ⟨outcome, hresolves, rfl⟩ := validate_eq_ok_iff_resolves.1 h₁
    refine ⟨u.result s₂ outcome, u.result (.uniform .error) outcome,
      validate_eq_ok_iff_resolves.2 ⟨outcome, hresolves, rfl⟩, rfl, rfl,
      validate_eq_ok_iff_resolves.2 ⟨outcome, hresolves, rfl⟩, ?_⟩
    simp only [SourceUnit.result, Severities.filter_problems_uniform]
    exact s₁.filter_problems_eq_map outcome u.blocks

theorem validate_severities_mixed :
    let quiet := Severities.default.override .parseError .ignore
    let u := SourceUnit.ofSource "A.java" mixedSource
    emptyClass.toIndex.validate quiet u = .ok (mixedResult quiet)
      ∧ (mixedResult quiet).problems = [quiet.grade .unresolvedMethod 37 10 ["a.B", "new"] ["a.B"]]
      ∧ ∃ strict, emptyClass.toIndex.validate (.uniform .error) u = .ok strict
        ∧ (mixedResult quiet).problems
          = (strict.problems.filter (quiet.of ·.kind ≠ .ignore)).map quiet.regrade := by
  intro quiet u
  obtain ⟨-, hsuccess⟩ := validate_severities emptyClass.toIndex u quiet .default
  obtain ⟨-, strict, -, -, -, hstrict, hproblems⟩ := hsuccess _ (validate_mixed quiet)
  exact ⟨validate_mixed quiet, rfl, strict, hstrict, hproblems⟩

end TypeIndex

end Jsni
