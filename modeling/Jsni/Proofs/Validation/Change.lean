import Jsni.Proofs.Index.Agreement
import Jsni.Proofs.Validation.Result

/-!
# What problems depend on

A problem names the type that its reference turned out to be about, if any. It stays as long as the
entries of this type and of all types above it do. The entry of the named type alone is not enough:
a field that is missing may be added to any type above it.
-/

namespace Jsni.StaticIndex

/-- The indexes hold the same entries for all that the types named by a problem inherit from. -/
def AgreesOn (before after : StaticIndex) (p : Problem) : Prop :=
  ∀ name ∈ p.typeDependencies, ∀ t, before.typeOf? name = some t → before.AgreesAbove after t

variable {before after : StaticIndex} {s : Severities} {u : SourceUnit}

theorem exists_validate (idx : StaticIndex) (s : Severities) (u : SourceUnit) :
    ∃ result, idx.toIndex.validate s u = .ok result := by
  choose outcome houtcome using fun b r => idx.exists_resolve (u.context b) r
  exact ⟨u.result s outcome, TypeIndex.validate_eq_ok_iff_resolves.2
    ⟨outcome, fun site _ => houtcome site.1 site.2, rfl⟩⟩

/-! ## Changes elsewhere -/

theorem tokenProblem?_congr (htypes : before.SameTypes after)
    {outcome outcome' : Block → Reference → Outcome}
    (hbefore : u.Resolves before.toIndex outcome) (hafter : u.Resolves after.toIndex outcome')
    {b : Block} (hb : b ∈ u.blocks) {t : Token} (ht : t ∈ b.tokens) {p : Problem}
    (hp : s.tokenProblem? (outcome b) t = some p)
    (hagree : before.AgreesOn after p) :
    s.tokenProblem? (outcome' b) t = some p := by
  cases t with
  | malformed m => exact hp
  | reference r =>
    have hsite := SourceUnit.mem_sites_iff.2 ⟨hb, Block.mem_references_iff.2 ht⟩
    have hresolve := hbefore _ hsite
    have hnamed : p.typeDependencies = (outcome b r).owner?.toList.map JavaType.name :=
      Severities.typeDependencies_of_outcomeProblem? hp
    have hsame : after.toIndex.resolve (u.context b) r = .ok (outcome b r) := by
      refine resolve_congr htypes hresolve fun owner howner => ?_
      refine hagree owner.name ?_ owner (decides_of_owner? hresolve howner).1
      rw [hnamed, howner]
      exact List.mem_singleton_self _
    have houtcome : outcome' b r = outcome b r := Except.ok.inj ((hafter _ hsite).symm.trans hsame)
    rw [Severities.tokenProblem?, houtcome]
    exact hp

/-- A problem stays while the indexes agree above the types that it names. -/
theorem mem_problems_of_agreesAbove (htypes : before.SameTypes after) {result : ValidationResult}
    (hresult : before.toIndex.validate s u = .ok result) {p : Problem} (hp : p ∈ result.problems)
    (hagree : before.AgreesOn after p) :
    ∃ result', after.toIndex.validate s u = .ok result' ∧ p ∈ result'.problems := by
  obtain ⟨outcome, hbefore, rfl⟩ := TypeIndex.validate_eq_ok_iff_resolves.1 hresult
  obtain ⟨result', hresult'⟩ := after.exists_validate s u
  obtain ⟨outcome', hafter, rfl⟩ := TypeIndex.validate_eq_ok_iff_resolves.1 hresult'
  refine ⟨_, hresult', ?_⟩
  obtain ⟨hraised, hkept⟩ := List.mem_filter.1 hp
  refine List.mem_filter.2 ⟨?_, hkept⟩
  obtain ⟨b, hb, hproblem⟩ := Severities.mem_problems_iff.1 hraised
  refine Severities.mem_problems_iff.2 ⟨b, hb, hproblem.imp_right ?_⟩
  rintro ⟨t, ht, htoken⟩
  exact ⟨t, ht, tokenProblem?_congr htypes hbefore hafter hb ht htoken hagree⟩

/-! ## Changes above the named type -/

theorem not_declaresField_of_resolve {idx : StaticIndex} {context : ImportContext} {r : Reference}
    {t : JavaType} (ho : idx.toIndex.resolve context r = .ok (.unresolvedField t)) :
    ¬ ∃ n f, idx.hierarchy.Reaches t.name n ∧ idx.DeclaresField n r.memberName f := by
  obtain ⟨-, hfits, hdecides⟩ := decides_of_owner? ho rfl
  have hkind : r.kind = .field := hfits
  rw [Decides, hkind] at hdecides
  exact hdecides.unresolved_iff.1 rfl

/-- A problem with a field says that no type above the owner declares the field. -/
theorem not_declaresField_of_mem_problems {idx : StaticIndex} {result : ValidationResult}
    (hresult : idx.toIndex.validate s u = .ok result) {p : Problem} (hp : p ∈ result.problems)
    (hkind : p.kind = .unresolvedField) :
    ∃ owner field, p.args = [owner, field] ∧
      ¬ ∃ n f, idx.hierarchy.Reaches owner n ∧ idx.DeclaresField n field f := by
  obtain ⟨outcome, hresolves, rfl⟩ := TypeIndex.validate_eq_ok_iff_resolves.1 hresult
  obtain ⟨b, hb, hblock | ⟨t, ht, htoken⟩⟩ := Severities.mem_problems_iff.1 (List.mem_filter.1 hp).1
  · obtain ⟨_, rfl⟩ := Severities.exists_of_mem_blockProblems hblock
    cases hkind
  · cases t with
    | malformed m =>
      cases htoken
      cases hkind
    | reference r =>
      have hresolve := hresolves _ (SourceUnit.mem_sites_iff.2 ⟨hb, Block.mem_references_iff.2 ht⟩)
      obtain ⟨t, ho, hargs⟩ := Severities.eq_unresolvedField_of_outcomeProblem? htoken hkind
      exact ⟨_, _, hargs, not_declaresField_of_resolve (hresolve.trans (congrArg Except.ok ho))⟩

/-- Adding the field to a type above the owner settles the problem. -/
theorem not_mem_problems_of_addField {p : Problem} (hkind : p.kind = .unresolvedField)
    {owner field : String} (hargs : p.args = [owner, field]) {n : String} {d : TypeDecl}
    (hreach : before.hierarchy.Reaches owner n) (hd : before.find? n = some d) (type : String) :
    ∃ result, (before.apply (.addField n field type)).toIndex.validate s u = .ok result
      ∧ p ∉ result.problems := by
  obtain ⟨result, hresult⟩ := (before.apply (.addField n field type)).exists_validate s u
  refine ⟨result, hresult, fun hp => ?_⟩
  obtain ⟨_, _, hargs', hnone⟩ := not_declaresField_of_mem_problems hresult hp hkind
  cases hargs.symm.trans hargs'
  refine hnone ⟨n, ⟨field, n, .ofSpelling type⟩, ?_, ?_⟩
  · rwa [(sameHeaders_apply (e := .addField n field type) hd rfl).hierarchy_eq]
  · refine ⟨_, if_pos rfl ▸ find?_apply .., ?_, rfl, rfl⟩
    exact List.mem_append_right _ (List.mem_singleton_self _)

/-- A class, one that extends it, and one apart. -/
def lineage : StaticIndex :=
  empty.applyAll [.addClass "a.A" none, .addClass "a.B" (some "a.A"), .addClass "a.C" none]

/-- A reference to a field of the class that extends the other. -/
def fieldSource : String :=
  "package a;class N{native void f()/*-{@B::x}-*/;}"

def fieldBlock : Block :=
  ⟨"a.N", "f", true, ["a.N"], 33, 13, "@B::x", 37, true⟩

def fieldUnit : SourceUnit where
  path := "N.java"
  source := fieldSource
  package := some "a"
  blocks := [fieldBlock]

def fieldReference : Reference :=
  ⟨37, 5, "B", "x", .field, "", "a.N#f"⟩

def fieldOwner : JavaType :=
  ⟨"a.B", .classKind⟩

def missingField : Problem :=
  Severities.default.grade .unresolvedField 37 5 ["a.B", "x"] ["a.B"]

theorem ofSource_field : SourceUnit.ofSource "N.java" fieldSource = fieldUnit := by
  decide +kernel

theorem tokens_fieldBlock : fieldBlock.tokens = [.reference fieldReference] := by
  let r : Reading := .field ['B'] ['x']
  have hfits : r.Fits [] :=
    .field (.identifier (by decide)) (by decide) (by decide) (by simp [ContinuesIdentifier])
      (by decide)
  exact Block.tokens_of_fits hfits rfl rfl

theorem sites_field : fieldUnit.sites = [(fieldBlock, fieldReference)] := by
  change [fieldBlock].flatMap _ = _
  rw [List.flatMap_singleton, Block.references, tokens_fieldBlock]
  rfl

/-- The problems of the unit are those of its one reference. -/
theorem validate_field {idx : StaticIndex} {o : Outcome}
    (ho : idx.toIndex.resolve (fieldUnit.context fieldBlock) fieldReference = .ok o) :
    ∃ result, idx.toIndex.validate .default (.ofSource "N.java" fieldSource) = .ok result
      ∧ result.problems = (Severities.default.outcomeProblem? fieldReference o).toList.filter
          (·.severity ≠ .ignore) := by
  have hresolves : fieldUnit.Resolves idx.toIndex fun _ _ => o :=
    SourceUnit.resolves_of_sites_eq sites_field ho
  rw [ofSource_field]
  refine ⟨_, TypeIndex.validate_eq_ok_iff_resolves.2 ⟨_, hresolves, rfl⟩, ?_⟩
  change (Severities.problems _ _ [fieldBlock]).filter _ = _
  rw [Severities.problems, List.flatMap_singleton, tokens_fieldBlock]
  cases o <;> rfl

/-- Above the owner there is only the class that it extends. -/
theorem reaches_lineage {n : String} (hn : lineage.hierarchy.Reaches "a.B" n) :
    n = "a.B" ∨ n = "a.A" := by
  have hsuper : lineage.superclass? "a.B" = some ⟨"a.A", .classKind⟩ := rfl
  have hroot : lineage.superclass? "a.A" = none := rfl
  have hnone : lineage.hierarchy.interfaces "a.B" = [] ∧ lineage.hierarchy.interfaces "a.A" = [] :=
    ⟨rfl, rfl⟩
  let classes (n : String) : Prop := n = "a.B" ∨ n = "a.A"
  refine hn.of_closed classes classes (.inl rfl) (fun _ => id) ?_ ?_
  · rintro n m (rfl | rfl) ⟨t, ht, rfl⟩
    · cases hsuper.symm.trans ht
      exact .inr rfl
    · cases hroot.symm.trans ht
  · rintro n m (rfl | rfl) ⟨t, ht, rfl⟩
    · exact absurd (hnone.1 ▸ ht) List.not_mem_nil
    · exact absurd (hnone.2 ▸ ht) List.not_mem_nil

theorem resolve_lineage :
    lineage.toIndex.resolve (fieldUnit.context fieldBlock) fieldReference
      = .ok (.unresolvedField fieldOwner) := by
  have hfields : lineage.fieldsOf "a.B" "x" = [] ∧ lineage.fieldsOf "a.A" "x" = [] := ⟨rfl, rfl⟩
  have howner : lineage.toIndex.resolveType (fieldUnit.context fieldBlock) "B"
      = .ok (some fieldOwner) := rfl
  obtain ⟨o, ho, -, -, hchoice⟩ := resolve_of_resolveType (r := fieldReference) rfl howner rfl
  have hnone : ¬ ∃ n f, lineage.hierarchy.Reaches "a.B" n ∧ lineage.DeclaresField n "x" f := by
    rintro ⟨n, f, hn, hf⟩
    rw [← mem_fieldsOf_iff] at hf
    rcases reaches_lineage hn with rfl | rfl
    · exact absurd (hfields.1 ▸ hf) List.not_mem_nil
    · exact absurd (hfields.2 ▸ hf) List.not_mem_nil
  rw [ho, hchoice.unresolved_iff.2 hnone]

theorem validate_lineage :
    ∃ result, lineage.toIndex.validate .default (.ofSource "N.java" fieldSource) = .ok result
      ∧ missingField ∈ result.problems := by
  obtain ⟨result, hresult, hproblems⟩ := validate_field resolve_lineage
  refine ⟨result, hresult, ?_⟩
  rw [hproblems]
  exact List.mem_cons_self

/-- The field is added to the class that is extended. -/
def extendedLineage : StaticIndex :=
  lineage.apply (.addField "a.A" "x" "int")

/-- The field is added to the class apart. -/
def widenedLineage : StaticIndex :=
  lineage.apply (.addField "a.C" "x" "int")

theorem mem_problems_of_agreesAbove_lineage :
    lineage.SameTypes widenedLineage ∧ lineage.AgreesOn widenedLineage missingField
      ∧ ∃ result, widenedLineage.toIndex.validate .default (.ofSource "N.java" fieldSource)
        = .ok result ∧ missingField ∈ result.problems := by
  obtain ⟨result, hresult, hp⟩ := validate_lineage
  have htypes : lineage.SameTypes widenedLineage := sameTypes_apply (d := {}) rfl rfl
  have hstored : lineage.typeOf? "a.B" = some fieldOwner := rfl
  have hagree : lineage.AgreesOn widenedLineage missingField := by
    intro name hname t ht
    obtain rfl := List.mem_singleton.1 hname
    cases hstored.symm.trans ht
    refine agreesAbove_apply ?_
    rintro (hreach | ⟨hinterface, -⟩)
    · exact absurd (reaches_lineage hreach) (by decide)
    · cases hinterface
  exact ⟨htypes, hagree, mem_problems_of_agreesAbove htypes hresult hp hagree⟩

/-- The problem is gone though the entry of the type that it names is as before. -/
theorem not_mem_problems_of_change_above :
    lineage.SameTypes extendedLineage
      ∧ (∃ result, lineage.toIndex.validate .default (.ofSource "N.java" fieldSource) = .ok result
        ∧ missingField ∈ result.problems)
      ∧ (∀ name ∈ missingField.typeDependencies, lineage.find? name = extendedLineage.find? name)
      ∧ ∃ result, extendedLineage.toIndex.validate .default (.ofSource "N.java" fieldSource)
        = .ok result ∧ missingField ∉ result.problems := by
  have hsuper : lineage.superclass? "a.B" = some ⟨"a.A", .classKind⟩ := rfl
  have hreach : lineage.hierarchy.Reaches "a.B" "a.A" :=
    ⟨"a.A", .single ⟨_, hsuper, rfl⟩, .refl⟩
  have hentry : lineage.find? "a.A" = some {} := rfl
  refine ⟨sameTypes_apply hentry rfl, validate_lineage, ?_,
    not_mem_problems_of_addField rfl rfl hreach hentry "int"⟩
  intro name hname
  obtain rfl := List.mem_singleton.1 hname
  exact (find?_apply_of_ne (by decide)).symm

end Jsni.StaticIndex
