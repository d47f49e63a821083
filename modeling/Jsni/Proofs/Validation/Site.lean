import Jsni.Proofs.Reference.Scan
import Jsni.Proofs.Validation.Finding

/-!
# The references that validation resolves

Only the references of terminated blocks are resolved. They alone decide whether validation fails,
and their outcomes alone decide which findings there are.
-/

namespace Jsni

/-! ## Failures -/

/-- The error of a computation, if it failed. -/
def failure? : Except ε α → Option ε
  | .error e => some e
  | .ok _    => none

theorem failure?_eq_some_iff {x : Except ε α} {e : ε} : failure? x = some e ↔ x = .error e := by
  cases x <;> simp [failure?]

theorem failure?_eq_none_iff {x : Except ε α} : failure? x = none ↔ ∃ a, x = .ok a := by
  cases x <;> simp [failure?]

theorem failure?_map (f : α → β) (x : Except ε α) : failure? (x.map f) = failure? x := by
  cases x <;> rfl

theorem failure?_bind_pure (x : Except ε α) (f : α → β) :
    failure? (x >>= fun a => pure (f a)) = failure? x := by
  cases x <;> rfl

/-- A list of computations fails as the first of them that does. -/
theorem failure?_mapM (f : α → Except ε β) (xs : List α) :
    failure? (xs.mapM f) = xs.findSome? fun x => failure? (f x) := by
  induction xs with
  | nil => rfl
  | cons x xs ih =>
    rw [List.mapM_cons, List.findSome?_cons, ← ih]
    cases f x with
    | error e => rfl
    | ok y => exact failure?_bind_pure _ (y :: ·)

theorem mapM_eq_ok_map {f : α → Except ε β} {g : α → β} {xs : List α}
    (h : ∀ x ∈ xs, f x = .ok (g x)) : xs.mapM f = .ok (xs.map g) := by
  rw [mapM_eq_ok_iff, List.forall₂_map_right_iff, List.forall₂_same]
  exact h

theorem findSome?_flatMap (f : β → Option γ) (g : α → List β) (xs : List α) :
    (xs.flatMap g).findSome? f = xs.findSome? fun x => (g x).findSome? f := by
  induction xs with
  | nil => rfl
  | cons x xs ih =>
    rw [List.flatMap_cons, List.findSome?_append, ih, List.findSome?_cons]
    cases (g x).findSome? f <;> rfl

theorem findSome?_filterMap (f : β → Option γ) (g : α → Option β) (xs : List α) :
    (xs.filterMap g).findSome? f = xs.findSome? fun x => (g x).bind f := by
  induction xs with
  | nil => rfl
  | cons x xs ih =>
    rw [List.filterMap_cons, List.findSome?_cons, ← ih]
    cases g x <;> rfl

/-! ## Sites -/

namespace Block

/-- The tokens that validation reads of a block: none if it is unterminated. -/
def tokens (b : Block) : List Token :=
  if b.terminated then scan b.body b.bodyOffset b.owner else []

/-- A body that is one reference is one token. -/
theorem tokens_of_fits {b : Block} {r : Reading} (hfits : r.Fits [])
    (hterminated : b.terminated) (hbody : b.body = .ofList ('@' :: r.chars)) :
    b.tokens = [r.toToken b.owner b.bodyOffset] := by
  rw [tokens, if_pos hterminated, hbody]
  exact scan_of_fits _ _ hfits

/-- The references that validation resolves in a block. -/
def references (b : Block) : List Reference :=
  b.tokens.filterMap Token.reference?

theorem mem_references_iff {b : Block} {r : Reference} :
    r ∈ b.references ↔ .reference r ∈ b.tokens := by
  rw [references, List.mem_filterMap]
  constructor
  · rintro ⟨t, ht, href⟩
    cases t with
    | malformed m => cases href
    | reference r' =>
      cases href
      exact ht
  · intro hr
    exact ⟨_, hr, rfl⟩

theorem flatMap_references (bs : List Block) :
    bs.flatMap references
      = (bs.filter (·.terminated)).flatMap fun b =>
          Jsni.references b.body b.bodyOffset b.owner := by
  induction bs with
  | nil => rfl
  | cons b bs ih =>
    rw [List.flatMap_cons, List.filter_cons, ih, references, tokens]
    cases b.terminated <;> rfl

end Block

/-- The references that validation resolves in a unit, each with its block, in order. -/
def SourceUnit.sites (u : SourceUnit) : List (Block × Reference) :=
  u.blocks.flatMap fun b => b.references.map (b, ·)

theorem SourceUnit.mem_sites_iff {u : SourceUnit} {b : Block} {r : Reference} :
    (b, r) ∈ u.sites ↔ b ∈ u.blocks ∧ r ∈ b.references := by
  simp only [sites, List.mem_flatMap, List.mem_map, Prod.mk.injEq]
  constructor
  · rintro ⟨_, hb, _, hr, rfl, rfl⟩
    exact ⟨hb, hr⟩
  · rintro ⟨hb, hr⟩
    exact ⟨b, hb, r, hr, rfl, rfl⟩

/-! ## Failures of validation -/

namespace TypeIndex

variable {idx : TypeIndex}

theorem failure?_findToken (context : ImportContext) (t : Token) :
    failure? (idx.findToken context t)
      = t.reference?.bind fun r => failure? (idx.resolve context r) := by
  cases t with
  | malformed m => rfl
  | reference r => exact failure?_map _ _

theorem failure?_findBlock (context : ImportContext) (b : Block) :
    failure? (idx.findBlock context b)
      = b.references.findSome? fun r => failure? (idx.resolve context r) := by
  rw [Block.references, Block.tokens, findSome?_filterMap, findBlock]
  cases b.terminated with
  | false => rfl
  | true =>
    simp only [if_true, failure?_bind_pure, failure?_mapM, failure?_findToken]

/-- Validation fails as the first of the references that cannot be resolved. -/
theorem failure?_findUnit (u : SourceUnit) :
    failure? (idx.findUnit u)
      = u.sites.findSome? fun site => failure? (idx.resolve (u.context site.1) site.2) := by
  rw [findUnit, failure?_bind_pure, failure?_mapM, SourceUnit.sites, findSome?_flatMap]
  refine congrArg (u.blocks.findSome? ·) (funext fun b => ?_)
  rw [failure?_findBlock, List.findSome?_map]
  rfl

theorem failure?_validate (s : Severities) (u : SourceUnit) :
    failure? (idx.validate s u)
      = u.sites.findSome? fun site => failure? (idx.resolve (u.context site.1) site.2) := by
  rw [validate, failure?_map, failure?_findUnit]

end TypeIndex

/-! ## Findings from outcomes -/

/-- Resolving gives each reference of a unit its outcome. -/
def SourceUnit.Resolves (u : SourceUnit) (idx : TypeIndex)
    (outcome : Block → Reference → Outcome) : Prop :=
  ∀ site ∈ u.sites, idx.resolve (u.context site.1) site.2 = .ok (outcome site.1 site.2)

theorem SourceUnit.resolves_of_sites_eq {u : SourceUnit} {idx : TypeIndex}
    {outcome : Block → Reference → Outcome} {b : Block} {r : Reference}
    (hsites : u.sites = [(b, r)]) (hr : idx.resolve (u.context b) r = .ok (outcome b r)) : u.Resolves idx outcome := by
  intro site hsite
  rw [hsites, List.mem_singleton] at hsite
  rw [hsite]
  exact hr

/-- What is found of a token, given the outcomes of references. -/
def Token.finding (outcome : Reference → Outcome) : Token → Finding
  | .malformed m => .malformed m
  | .reference r => .resolved r (outcome r)

/-- What is found of a block, given the outcomes of its references. -/
def Block.findings (outcome : Reference → Outcome) (b : Block) : List Finding :=
  (if b.isNative then [] else [.notNative b])
    ++ (if b.terminated then [] else [.unterminated b])
    ++ b.tokens.map (·.finding outcome)

namespace TypeIndex

variable {idx : TypeIndex}

theorem findToken_eq_ok {context : ImportContext} {outcome : Reference → Outcome} {t : Token}
    (h : ∀ r, t = .reference r → idx.resolve context r = .ok (outcome r)) :
    idx.findToken context t = .ok (t.finding outcome) := by
  cases t with
  | malformed m => rfl
  | reference r =>
    rw [findToken, h r rfl]
    rfl

theorem findBlock_eq_ok {context : ImportContext} {outcome : Reference → Outcome} {b : Block}
    (h : ∀ r ∈ b.references, idx.resolve context r = .ok (outcome r)) :
    idx.findBlock context b = .ok (b.findings outcome) := by
  have htokens : b.tokens.mapM (idx.findToken context)
      = .ok (b.tokens.map (·.finding outcome)) := by
    refine mapM_eq_ok_map fun t ht => findToken_eq_ok ?_
    rintro r rfl
    exact h r (Block.mem_references_iff.2 ht)
  rw [findBlock, Block.findings]
  rw [Block.tokens] at htokens ⊢
  cases hterminated : b.terminated with
  | false => simp [pure, Except.pure]
  | true =>
    rw [hterminated, if_pos rfl] at htokens
    rw [if_pos rfl, if_pos rfl, if_pos rfl, htokens, List.append_nil]
    rfl

theorem findUnit_eq_ok_of_resolves {u : SourceUnit} {outcome : Block → Reference → Outcome}
    (h : u.Resolves idx outcome) :
    idx.findUnit u = .ok (u.blocks.flatMap fun b => b.findings (outcome b)) := by
  have hblocks : (u.blocks.mapM fun b => idx.findBlock (u.context b) b)
      = .ok (u.blocks.map fun b => b.findings (outcome b)) :=
    mapM_eq_ok_map fun b hb => findBlock_eq_ok fun r hr =>
      h (b, r) (SourceUnit.mem_sites_iff.2 ⟨hb, hr⟩)
  rw [findUnit, hblocks, List.flatMap_def]
  rfl

theorem exists_resolves_of_findUnit {u : SourceUnit} {fs : List Finding}
    (h : idx.findUnit u = .ok fs) : ∃ outcome, u.Resolves idx outcome := by
  have hfailure : failure? (idx.findUnit u) = _ := failure?_findUnit u
  rw [h, failure?, eq_comm, List.findSome?_eq_none_iff] at hfailure
  -- No reference fails, so each block gives its references their outcomes.
  refine ⟨fun b r => (idx.resolve (u.context b) r).toOption.getD .ignoredNull, fun site hsite => ?_⟩
  obtain ⟨o, ho⟩ := failure?_eq_none_iff.1 (hfailure site hsite)
  simp only [ho, Except.toOption, Option.getD_some]

/-- There are findings just where every reference resolves, and they follow from the outcomes. -/
theorem findUnit_eq_ok_iff_resolves {u : SourceUnit} {fs : List Finding} :
    idx.findUnit u = .ok fs
      ↔ ∃ outcome, u.Resolves idx outcome
        ∧ fs = u.blocks.flatMap fun b => b.findings (outcome b) := by
  constructor
  · intro h
    obtain ⟨outcome, hresolves⟩ := exists_resolves_of_findUnit h
    exact ⟨outcome, hresolves, Except.ok.inj (h.symm.trans (findUnit_eq_ok_of_resolves hresolves))⟩
  · rintro ⟨outcome, hresolves, rfl⟩
    exact findUnit_eq_ok_of_resolves hresolves

end TypeIndex

end Jsni
