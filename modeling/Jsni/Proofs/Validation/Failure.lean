import Jsni.Proofs.Validation.Result

/-!
# When validation fails

Validation fails where the index fails for a reference, at the first such reference, and all that
was found before is dropped. References to `null`, malformed ones and blocks that are not read never
reach the index. Units are validated each on its own.
-/

namespace Jsni.TypeIndex

/-! ## Failing references -/

/-- The index fails for a reference to a class other than `null`. -/
def FailsAt (idx : TypeIndex) (u : SourceUnit) (site : Block × Reference) : Prop :=
  site.2.className ≠ Reference.nullName ∧ ∃ e, idx.resolve (u.context site.1) site.2 = .error e

variable {idx : TypeIndex} {s : Severities} {u : SourceUnit}

theorem className_ne_null_of_resolve {context : ImportContext} {r : Reference} {e : IndexError}
    (h : idx.resolve context r = .error e) : r.className ≠ Reference.nullName := by
  intro hr
  rw [idx.resolve_of_null context hr] at h
  cases h

theorem failure?_resolve_eq_none_iff {site : Block × Reference} :
    failure? (idx.resolve (u.context site.1) site.2) = none ↔ ¬ idx.FailsAt u site := by
  rw [failure?_eq_none_iff]
  constructor
  · rintro ⟨o, ho⟩ ⟨-, e, he⟩
    cases ho.symm.trans he
  · intro hfails
    cases h : idx.resolve (u.context site.1) site.2 with
    | ok o => exact ⟨o, rfl⟩
    | error e => exact absurd ⟨className_ne_null_of_resolve h, e, h⟩ hfails

theorem validate_eq_error_iff {e : IndexError} :
    idx.validate s u = .error e
      ↔ ∃ before b r after, u.sites = before ++ (b, r) :: after
        ∧ (∀ site ∈ before, ¬ idx.FailsAt u site)
        ∧ r.className ≠ Reference.nullName
        ∧ idx.resolve (u.context b) r = .error e := by
  rw [← failure?_eq_some_iff, failure?_validate, List.findSome?_eq_some_iff]
  constructor
  · rintro ⟨before, ⟨b, r⟩, after, hsites, hfailure, hbefore⟩
    have hresolve := failure?_eq_some_iff.1 hfailure
    exact ⟨before, b, r, after, hsites,
      fun site hsite => failure?_resolve_eq_none_iff.1 (hbefore site hsite),
      className_ne_null_of_resolve hresolve, hresolve⟩
  · rintro ⟨before, b, r, after, hsites, hbefore, -, hresolve⟩
    exact ⟨before, (b, r), after, hsites, failure?_eq_some_iff.2 hresolve,
      fun site hsite => failure?_resolve_eq_none_iff.2 (hbefore site hsite)⟩

/-- Without references to classes other than `null`, the result is the same for all indexes. -/
theorem validate_of_all_null (s : Severities)
    (h : ∀ site ∈ u.sites, site.2.className = Reference.nullName) (idx : TypeIndex) :
    idx.validate s u = .ok (u.result s fun _ _ => .ignoredNull) :=
  validate_eq_ok_iff_resolves.2
    ⟨_, fun site hsite => idx.resolve_of_null _ (h site hsite), rfl⟩

/-! ## Skipped units -/

theorem validateOrSkip_of_error {e : IndexError} (h : idx.validate s u = .error e) :
    idx.validateOrSkip s u = ⟨u.path, [], [], []⟩ := by
  rw [validateOrSkip, h]

theorem validateOrSkip_of_ok {result : ValidationResult} (h : idx.validate s u = .ok result) :
    idx.validateOrSkip s u = result := by
  rw [validateOrSkip, h]

/-- Validation fails as the first reference that the index fails for, whatever else the unit holds.
A unit that fails has an empty result, and no other unit's result is affected. -/
theorem validate_fails_at_first (idx : TypeIndex) (s : Severities) (u : SourceUnit) :
    (∀ e, idx.validate s u = .error e
        ↔ ∃ before b r after, u.sites = before ++ (b, r) :: after
          ∧ (∀ site ∈ before, ¬ idx.FailsAt u site)
          ∧ r.className ≠ Reference.nullName
          ∧ idx.resolve (u.context b) r = .error e)
      ∧ ((∀ site ∈ u.sites, site.2.className = Reference.nullName) →
          ∃ result, ∀ other : TypeIndex, other.validate s u = .ok result)
      ∧ (∀ e, idx.validate s u = .error e → idx.validateOrSkip s u = ⟨u.path, [], [], []⟩)
      ∧ ∀ units : List SourceUnit, (idx.validateAll s units).length = units.length
          ∧ ∀ (i : Nat) (v : SourceUnit), units[i]? = some v →
            (idx.validateAll s units)[i]? = some (idx.validateOrSkip s v)
              ∧ ∀ result, idx.validate s v = .ok result →
                (idx.validateAll s units)[i]? = some result := by
  refine ⟨fun e => validate_eq_error_iff, fun h => ⟨_, validate_of_all_null s h⟩,
    fun e => validateOrSkip_of_error, fun units => ⟨List.length_map .., fun i v hv => ?_⟩⟩
  have hown : (idx.validateAll s units)[i]? = some (idx.validateOrSkip s v) := by
    rw [validateAll, List.getElem?_map, hv, Option.map_some]
  exact ⟨hown, fun result hresult => hown.trans (congrArg some (validateOrSkip_of_ok hresult))⟩

/-- An index that fails to answer any question. -/
def failing (e : IndexError) : TypeIndex where
  typeNames := []
  findType _ := .error e
  superclass _ := .error e
  interfaces _ := .error e
  constructors _ := .error e
  methods _ _ := .error e
  fields _ _ := .error e
  superclass_known h := by cases h
  interfaces_known h := by cases h

/-- A block of a method that is not native, with a reference to `null`. -/
def nullBlock : Block :=
  ⟨"N", "f", false, ["N"], 16, 16, "@null::x", 20, true⟩

def nullUnit : SourceUnit where
  path := "N.java"
  source := "class N{void f()/*-{@null::x}-*/;}"
  blocks := [nullBlock]

theorem className_of_mem_sites_nullUnit :
    ∀ site ∈ nullUnit.sites, site.2.className = Reference.nullName := by
  let r : Reading := .field ['n', 'u', 'l', 'l'] ['x']
  have hfits : r.Fits [] :=
    .field (.identifier (by decide)) (by decide) (by decide) (by simp [ContinuesIdentifier])
      (by decide)
  have htokens : nullBlock.tokens = [r.toToken nullBlock.owner nullBlock.bodyOffset] :=
    Block.tokens_of_fits hfits rfl rfl
  rintro ⟨b, reference⟩ hsite
  obtain ⟨hb, hr⟩ := SourceUnit.mem_sites_iff.1 hsite
  obtain rfl := List.mem_singleton.1 hb
  rw [Block.mem_references_iff, htokens, List.mem_singleton] at hr
  cases hr
  rfl

theorem validate_fails_at_first_mixed :
    let idx := failing (.stale "a.B")
    let mixed := SourceUnit.ofSource "A.java" mixedSource
    idx.validate .default mixed = .error (.stale "a.B")
      ∧ idx.validateOrSkip .default mixed = ⟨"A.java", [], [], []⟩
      ∧ ∃ result, idx.validate .default nullUnit = .ok result
        ∧ (idx.validateAll .default [mixed, nullUnit])[1]? = some result := by
  intro idx mixed
  obtain ⟨hfirst, -, hskip, hall⟩ := validate_fails_at_first idx .default mixed
  obtain ⟨-, hnull, -, -⟩ := validate_fails_at_first idx .default nullUnit
  have hsites : mixed.sites = [] ++ (callBlock, callReference) :: [] := by
    rw [show mixed = mixedUnit from ofSource_mixed, sites_mixed]
    rfl
  have hresolve : idx.resolve (mixed.context callBlock) callReference = .error (.stale "a.B") := by
    rw [show mixed = mixedUnit from ofSource_mixed]
    rfl
  have herror : idx.validate .default mixed = .error (.stale "a.B") :=
    (hfirst _).2 ⟨_, _, _, _, hsites, by simp, by decide, hresolve⟩
  obtain ⟨result, hresult⟩ := hnull className_of_mem_sites_nullUnit
  exact ⟨herror, hskip _ herror, result, hresult idx, ((hall _).2 1 nullUnit rfl).2 _ (hresult idx)⟩

end Jsni.TypeIndex
