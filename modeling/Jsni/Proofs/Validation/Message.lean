import Jsni.Proofs.Problem.Template
import Jsni.Proofs.Validation.Change
import Jsni.Proofs.Validation.Order

/-!
# Messages of problems

What a problem says is its template with the arguments filled in all at once. Names of types and
members are the only arguments with another one after them, and where no type of the index has a
brace in its name, neither brings in a placeholder.
-/

namespace Jsni

/-! ## Names of members -/

theorem isIdentifierPart_brace : isIdentifierPart '\x7b' = false := by
  simp [isIdentifierPart, Text.isAlphanumeric, Text.isAlphabetic_of_ascii, Text.isNumeric_of_ascii]

theorem Reference.IsWellFormed.brace_not_mem_memberName {r : Reference} (hr : r.IsWellFormed) :
    '\x7b' ∉ r.memberName.toList := by
  have hmember := hr.member
  split at hmember
  · rw [hmember]
    exact List.not_mem_nil
  · exact hmember.not_mem_of_not_part isIdentifierPart_brace

theorem Block.isWellFormed_of_mem_tokens {b : Block} {r : Reference}
    (hr : .reference r ∈ b.tokens) : r.IsWellFormed :=
  (isScan_scan b.body b.bodyOffset b.owner).wellFormed r (mem_scan_of_mem_tokens hr)

/-! ## Arguments -/

/-- The arguments of a problem are as many as its message takes, and none but the last brings in a
brace. -/
structure Problem.FitsTemplate (p : Problem) : Prop where
  length_args : p.args.length = p.kind.arity
  brace_not_mem : ∀ arg ∈ p.args.dropLast, '\x7b' ∉ arg.toList

namespace Severities

variable {s : Severities}

theorem fitsTemplate_parseError (offset length : Nat) (detail : String) :
    (s.grade .parseError offset length [detail]).FitsTemplate :=
  ⟨rfl, by simp [grade]⟩

theorem fitsTemplate_of_outcomeProblem? {r : Reference} {o : Outcome} {p : Problem}
    (hr : r.IsWellFormed) (howner : ∀ t, o.owner? = some t → '\x7b' ∉ t.name.toList)
    (hp : s.outcomeProblem? r o = some p) : p.FitsTemplate := by
  have hmember := hr.brace_not_mem_memberName
  cases o with
  | unresolvedType =>
    cases hp
    exact ⟨rfl, by simp [grade]⟩
  | unresolvedMethod t =>
    cases hp
    exact ⟨rfl, by simpa [grade] using howner t rfl⟩
  | unresolvedField t =>
    cases hp
    exact ⟨rfl, by simpa [grade] using howner t rfl⟩
  | ambiguous t ms =>
    cases hp
    exact ⟨rfl, by simpa [grade] using ⟨howner t rfl, hmember⟩⟩
  | _ => cases hp

end Severities

theorem SourceUnit.fitsTemplate_of_mem_problems {idx : StaticIndex} {s : Severities}
    {u : SourceUnit} {outcome : Block → Reference → Outcome}
    (hresolves : u.Resolves idx.toIndex outcome)
    (hnames : ∀ name ∈ idx.names, '\x7b' ∉ name.toList) {p : Problem}
    (hp : p ∈ s.problems outcome u.blocks) : p.FitsTemplate := by
  obtain ⟨b, hb, hblock | ⟨t, ht, htoken⟩⟩ := Severities.mem_problems_iff.1 hp
  · obtain ⟨detail, rfl⟩ := Severities.exists_of_mem_blockProblems hblock
    exact Severities.fitsTemplate_parseError ..
  · cases t with
    | malformed m =>
      cases htoken
      exact Severities.fitsTemplate_parseError ..
    | reference r =>
      have hresolve := hresolves _ (mem_sites_iff.2 ⟨hb, Block.mem_references_iff.2 ht⟩)
      refine Severities.fitsTemplate_of_outcomeProblem? (Block.isWellFormed_of_mem_tokens ht) ?_
        htoken
      intro owner howner
      have hstored := (StaticIndex.decides_of_owner? hresolve howner).1
      exact hnames owner.name (StaticIndex.mem_names_of_typeOf? hstored)

/-! ## Messages -/

theorem Problem.FitsTemplate.slots_eq {p : Problem} (hp : p.FitsTemplate) :
    p.kind.slots = List.range p.args.length := by
  rw [hp.length_args, ProblemKind.slots_eq_range]

theorem Problem.FitsTemplate.message_eq {p : Problem} (hp : p.FitsTemplate) :
    p.message = .ofList (p.kind.fill p.args) := by
  rw [message, ProblemKind.render, p.kind.fillFrom_template hp.brace_not_mem]

namespace StaticIndex

/-- Where no type has a brace in its name, every problem has one argument for each placeholder, and
its message is the template with the placeholders replaced all at once. Replacing them one after the
other changes nothing of the arguments before. -/
theorem message_of_mem_problems {idx : StaticIndex}
    (hnames : ∀ name ∈ idx.names, '\x7b' ∉ name.toList) (s : Severities) (u : SourceUnit) :
    ∃ result, idx.toIndex.validate s u = .ok result
      ∧ ∀ p ∈ result.problems,
        p.message = .ofList (p.kind.fill p.args)
          ∧ p.kind.slots = List.range p.args.length
          ∧ (∀ n, .slot n ∈ p.kind.pieces → n < p.args.length)
          ∧ ∀ i, fillFrom 0 (p.args.take i) p.kind.template.toList
              = p.kind.fill (p.args.take i) := by
  obtain ⟨result, hresult⟩ := idx.exists_validate s u
  refine ⟨result, hresult, fun p hp => ?_⟩
  obtain ⟨outcome, hresolves, rfl⟩ := TypeIndex.validate_eq_ok_iff_resolves.1 hresult
  have hfits : p.FitsTemplate :=
    SourceUnit.fitsTemplate_of_mem_problems hresolves hnames (List.mem_filter.1 hp).1
  refine ⟨hfits.message_eq, hfits.slots_eq, fun n hn => ?_,
    p.kind.fillFrom_take_template hfits.brace_not_mem⟩
  rw [hfits.length_args]
  exact ProblemKind.lt_arity_of_slot_mem_pieces hn

/-- The problem of the class that has only the constructor without parameters. -/
def missingConstructor : Problem :=
  Severities.default.grade .unresolvedMethod 37 10 ["a.B", "new"] ["a.B"]

theorem message_of_mem_problems_mixed :
    (∀ name ∈ TypeIndex.emptyClass.names, '\x7b' ∉ name.toList)
      ∧ TypeIndex.emptyClass.toIndex.validate .default (.ofSource "A.java" TypeIndex.mixedSource)
        = .ok (TypeIndex.mixedResult .default)
      ∧ missingConstructor ∈ (TypeIndex.mixedResult .default).problems
      ∧ missingConstructor.message = "Referencing method 'a.B.new': unable to resolve method"
      ∧ String.ofList (fillFrom 0 ["a.B"] missingConstructor.kind.template.toList)
        = "Referencing method 'a.B.\x7b1\x7d': unable to resolve method" := by
  have hstored : TypeIndex.emptyClass.names = ["a.B"] := rfl
  have hnames : ∀ name ∈ TypeIndex.emptyClass.names, '\x7b' ∉ name.toList := by simp [hstored]
  have hmem : missingConstructor ∈ (TypeIndex.mixedResult .default).problems :=
    List.mem_cons_self ..
  obtain ⟨result, hresult, hmessages⟩ :=
    message_of_mem_problems hnames .default (.ofSource "A.java" TypeIndex.mixedSource)
  have hmixed := TypeIndex.validate_mixed .default
  cases hmixed.symm.trans hresult
  obtain ⟨hmessage, -, -, hstage⟩ := hmessages missingConstructor hmem
  refine ⟨hnames, hmixed, hmem, ?_, ?_⟩
  · rw [hmessage]
    cbv
  · refine (congrArg String.ofList (hstage 1)).trans ?_
    cbv

end StaticIndex

end Jsni
