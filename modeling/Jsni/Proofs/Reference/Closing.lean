import Jsni.Proofs.Reference.Grammar
import Jsni.Proofs.Text.Slice

/-!
# Counting parentheses

A closing parenthesis can be found by its byte position, with a count of the parentheses that are
open. The count begins at zero before the first one. It stays positive until its partner is met, so
nothing is ever taken from zero, and the position is the one that `spanClosing` stops at.
-/

namespace Jsni

open Text

/-! ## Counting -/

/-- What counting comes to. -/
inductive Counting where
  /-- At this byte the last open parenthesis is closed. -/
  | closed (offset : Nat)
  /-- The text ends before. -/
  | ended
  /-- A parenthesis is closed where none is open. -/
  | underflow
deriving DecidableEq, Repr

/-- Count from `offset` on with `depth` parentheses open. -/
def countFrom (depth offset : Nat) : List Char → Counting
  | []      => .ended
  | c :: cs =>
    if c = '(' then countFrom (depth + 1) (offset + c.utf8Size) cs
    else if c = ')' then
      match depth with
      | 0         => .underflow
      | 1         => .closed offset
      | depth + 2 => countFrom (depth + 1) (offset + c.utf8Size) cs
    else countFrom depth (offset + c.utf8Size) cs

/-- Count from a byte of a text on, unless it lies past the end or inside a character. -/
def closingAt (text : String) (opening : Nat) : Option Counting :=
  (splitBytes opening text.toList).map fun (_, cs) => countFrom 0 opening cs

/-- The count that finds what `spanClosing` finds. -/
def Counting.ofSpan (offset : Nat) : Option (List Char × List Char) → Counting
  | none             => .ended
  | some (inside, _) => .closed (offset + byteLength inside)

theorem Counting.ofSpan_cons (offset : Nat) (c : Char) (span : Option (List Char × List Char)) :
    ofSpan offset (span.map fun (inside, rest) => (c :: inside, rest))
      = ofSpan (offset + c.utf8Size) span := by
  cases span with
  | none => rfl
  | some parts => simp [ofSpan, Nat.add_assoc]

/-- While the count is positive it finds the parenthesis that closes all that are open. -/
theorem countFrom_succ (depth offset : Nat) (cs : List Char) :
    countFrom (depth + 1) offset cs = .ofSpan offset (spanClosing depth cs) := by
  induction cs generalizing depth offset with
  | nil => rfl
  | cons c cs ih =>
    by_cases hopen : c = '('
    · subst hopen
      rw [spanClosing_opening, Counting.ofSpan_cons, ← ih]
      rfl
    · by_cases hclose : c = ')'
      · subst hclose
        cases depth with
        | zero => rfl
        | succ depth =>
          rw [spanClosing_closing_succ, Counting.ofSpan_cons, ← ih]
          rfl
      · rw [spanClosing_other hopen hclose, Counting.ofSpan_cons, ← ih]
        simp [countFrom, hopen, hclose]

/-- At an opening parenthesis the count is positive at once. -/
theorem closingAt_eq {text : String} {opening : Nat} {before rest : List Char}
    (h : splitBytes opening text.toList = some (before, '(' :: rest)) :
    closingAt text opening = some (.ofSpan (opening + 1) (spanClosing 0 rest)) := by
  rw [closingAt, h, ← countFrom_succ]
  rfl

/-! ## Prefixes -/

/-- Wherever the text is cut off, a parenthesis is open. -/
def IsUnclosed (cs : List Char) : Prop :=
  ∀ p, p <+: cs → p ≠ [] → p.count ')' < p.count '('

/-- The text ends where all of its parentheses are closed, and no sooner. -/
structure ClosesAtEnd (cs : List Char) : Prop where
  total : cs.count '(' = cs.count ')'
  before : ∀ p, p <+: cs → p ≠ [] → p ≠ cs → p.count ')' < p.count '('

/-- After an opening parenthesis one more is open than in the rest alone. -/
theorem count_opening_lt_iff {p : List Char} :
    ('(' :: p).count ')' < ('(' :: p).count '(' ↔ p.count ')' ≤ p.count '(' + 0 := by
  rw [List.count_cons_self, List.count_cons_of_ne (by decide)]
  omega

theorem isUnclosed_opening_iff {cs : List Char} : IsUnclosed ('(' :: cs) ↔ StaysOpen 0 cs := by
  constructor
  · intro h p hp
    exact count_opening_lt_iff.1 (h _ (List.cons_prefix_cons.2 ⟨rfl, hp⟩) (by simp))
  · intro h p hp hne
    rcases List.prefix_cons_iff.1 hp with rfl | ⟨q, rfl, hq⟩
    · exact absurd rfl hne
    · exact count_opening_lt_iff.2 (h q hq)

theorem closesAtEnd_opening_iff {inside : List Char} :
    ClosesAtEnd ('(' :: (inside ++ [')'])) ↔ IsBalanced inside := by
  have htotal : ('(' :: (inside ++ [')'])).count '(' = ('(' :: (inside ++ [')'])).count ')'
      ↔ inside.count ')' = inside.count '(' := by
    simp
    omega
  constructor
  · rintro ⟨hend, hbefore⟩
    refine ⟨htotal.1 hend, fun p hp => count_opening_lt_iff.1 ?_⟩
    refine hbefore _ (List.cons_prefix_cons.2 ⟨rfl, hp.trans (List.prefix_append ..)⟩) (by simp) ?_
    intro heq
    obtain rfl := (List.cons_inj_right _).1 heq
    exact absurd hp.length_le (by simp)
  · rintro ⟨hend, hopen⟩
    refine ⟨htotal.2 hend, fun p hp hne hshort => ?_⟩
    rcases List.prefix_cons_iff.1 hp with rfl | ⟨q, rfl, hq⟩
    · exact absurd rfl hne
    · rcases List.prefix_concat_iff.1 hq with rfl | hq
      · exact absurd rfl hshort
      · exact count_opening_lt_iff.2 (hopen q hq)

/-- The text ends with the parenthesis that closes the first. -/
theorem ClosesAtEnd.exists_inside {cs : List Char} (h : ClosesAtEnd ('(' :: cs)) :
    ∃ inside, cs = inside ++ [')'] := by
  rcases List.eq_nil_or_concat cs with rfl | ⟨inside, c, hcs⟩
  · simpa using h.total
  · rw [List.concat_eq_append] at hcs
    subst hcs
    -- Without its last character the text has one more open than closed.
    have hopen := count_opening_lt_iff.1 (h.before ('(' :: inside) (by simp) (by simp) (by simp))
    have htotal := h.total
    by_cases hc : c = ')'
    · exact ⟨inside, by rw [hc]⟩
    · have hlast : [c].count ')' = 0 := List.count_eq_zero.2 (by simpa using Ne.symm hc)
      rw [List.count_cons_self, List.count_cons_of_ne (by decide), List.count_append,
        List.count_append, hlast] at htotal
      omega

/-! ## Positions -/

theorem ofSpan_eq_closed_iff {offset p : Nat} {rest : List Char} :
    Counting.ofSpan offset (spanClosing 0 rest) = .closed p
      ↔ ∃ inside after, rest = inside ++ ')' :: after ∧ IsBalanced inside
        ∧ p = offset + byteLength inside := by
  constructor
  · intro h
    cases hspan : spanClosing 0 rest with
    | none =>
      rw [hspan] at h
      cases h
    | some parts =>
      obtain ⟨inside, after⟩ := parts
      rw [hspan] at h
      cases h
      obtain ⟨hrest, hinside⟩ := spanClosing_zero_eq_some_iff.1 hspan
      exact ⟨inside, after, hrest, hinside, rfl⟩
  · rintro ⟨inside, after, hrest, hinside, rfl⟩
    rw [spanClosing_zero_eq_some_iff.2 ⟨hrest, hinside⟩]
    rfl

theorem ofSpan_eq_ended_iff {offset : Nat} {rest : List Char} :
    Counting.ofSpan offset (spanClosing 0 rest) = .ended ↔ IsUnclosed ('(' :: rest) := by
  rw [isUnclosed_opening_iff, ← spanClosing_eq_none_iff]
  cases spanClosing 0 rest <;> simp [Counting.ofSpan]

theorem byteLength_opening (inside : List Char) :
    byteLength ('(' :: (inside ++ [')'])) = byteLength inside + 2 := by
  rw [byteLength_cons, byteLength_append, byteLength_cons, byteLength_nil]
  exact Nat.add_comm 1 _

/-- The position found is that of the parenthesis at the end of the text that closes there. -/
theorem closingAt_eq_closed_iff {text : String} {opening p : Nat} {before rest : List Char}
    (h : splitBytes opening text.toList = some (before, '(' :: rest)) :
    closingAt text opening = some (.closed p)
      ↔ opening < p ∧ slice? text p 1 = some ")" ∧ ∃ through,
        slice? text opening (p + 1 - opening) = some through ∧ ClosesAtEnd through.toList := by
  rw [closingAt_eq h, Option.some_inj, ofSpan_eq_closed_iff]
  simp only [slice?_eq_some_iff_of_splitBytes h]
  obtain ⟨htext, hoffset⟩ := splitBytes_eq_some_iff.1 h
  constructor
  · rintro ⟨inside, after, rfl, hinside, rfl⟩
    have hposition : byteLength (before ++ '(' :: inside) = opening + 1 + byteLength inside := by
      rw [byteLength_append, byteLength_cons, hoffset, Nat.add_assoc]
      rfl
    refine ⟨by omega, slice?_eq_some_iff.2 ⟨_, after, by simp [htext], hposition, rfl⟩,
      .ofList ('(' :: (inside ++ [')'])), ⟨?_, ?_⟩, ?_⟩
    · simp
    · rw [String.toList_ofList, byteLength_opening]
      omega
    · rw [String.toList_ofList]
      exact closesAtEnd_opening_iff.2 hinside
  · rintro ⟨hp, -, through, ⟨hpre, hlength⟩, hcloses⟩
    rcases List.prefix_cons_iff.1 hpre with hnil | ⟨cs, hcs, hrest⟩
    · rw [hnil, byteLength_nil] at hlength
      omega
    · rw [hcs] at hcloses hlength
      obtain ⟨inside, rfl⟩ := hcloses.exists_inside
      obtain ⟨after, rfl⟩ := hrest
      rw [byteLength_opening] at hlength
      exact ⟨inside, after, by simp, closesAtEnd_opening_iff.1 hcloses, by omega⟩

/-- Counting from an opening parenthesis on never takes from zero and agrees with `spanClosing`. It
finds the parenthesis at the end of the shortest text from there with as many closed as opened, and
none if wherever the rest of the text is cut off more are opened than closed. -/
theorem closingAt_opening {text : String} {opening : Nat} {before rest : List Char}
    (h : splitBytes opening text.toList = some (before, '(' :: rest)) :
    closingAt text opening ≠ some .underflow
      ∧ closingAt text opening = some (.ofSpan (opening + 1) (spanClosing 0 rest))
      ∧ (∀ p, closingAt text opening = some (.closed p)
        ↔ opening < p ∧ slice? text p 1 = some ")" ∧ ∃ through,
          slice? text opening (p + 1 - opening) = some through ∧ ClosesAtEnd through.toList)
      ∧ (closingAt text opening = some .ended ↔ IsUnclosed ('(' :: rest)) := by
  have hspan := closingAt_eq h
  refine ⟨?_, hspan, fun p => closingAt_eq_closed_iff h, ?_⟩
  · rw [hspan]
    cases spanClosing 0 rest <;> simp [Counting.ofSpan]
  · rw [hspan, Option.some_inj, ofSpan_eq_ended_iff]

theorem closingAt_opening_nested :
    closingAt "é((ü)→)(" 2 = some (.closed 10)
      ∧ (∃ through, slice? "é((ü)→)(" 2 9 = some through ∧ ClosesAtEnd through.toList)
      ∧ closingAt "é((ü)→)(" 11 = some .ended
      ∧ IsUnclosed ['('] := by
  have hnested : splitBytes 2 "é((ü)→)(".toList = some (['é'], '(' :: "(ü)→)(".toList) := rfl
  have hlast : splitBytes 11 "é((ü)→)(".toList = some ("é((ü)→)".toList, ['(']) := rfl
  obtain ⟨-, hspan, hclosed, -⟩ := closingAt_opening hnested
  obtain ⟨-, hspan', -, hended⟩ := closingAt_opening hlast
  have hfound : closingAt "é((ü)→)(" 2 = some (.closed 10) := hspan
  have hnone : closingAt "é((ü)→)(" 11 = some .ended := hspan'
  exact ⟨hfound, ((hclosed 10).1 hfound).2.2, hnone, hended.1 hnone⟩

end Jsni
