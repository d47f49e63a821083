import Jsni.Reference.Identifier
import Jsni.Reference.Parenthesis
import Mathlib.Data.List.Basic

/-!
# The grammar of references

Identifiers, dotted names and balanced signatures, each said without the function that reads it.
The reading functions are then exact: `spanIdentifier` and `spanQualifiedName` find the longest
identifier and the longest name, and `spanClosing` the first parenthesis that closes.
-/

namespace Jsni

/-! ## Identifiers -/

def IsIdentifier : List Char → Prop
  | []      => False
  | c :: cs => isIdentifierStart c ∧ ∀ d ∈ cs, isIdentifierPart d

instance : DecidablePred IsIdentifier
  | []      => inferInstanceAs (Decidable False)
  | c :: cs =>
    decidable_of_iff (isIdentifierStart c ∧ cs.all isIdentifierPart)
      (and_congr_right fun _ => List.all_eq_true)

/-- An identifier begins here. -/
def BeginsIdentifier (cs : List Char) : Prop :=
  ∃ c ∈ cs.head?, isIdentifierStart c

/-- An identifier that ends here would go on. -/
def ContinuesIdentifier (cs : List Char) : Prop :=
  ∃ c ∈ cs.head?, isIdentifierPart c

theorem isIdentifierPart_of_start {c : Char} (hc : isIdentifierStart c) : isIdentifierPart c := by
  simp only [isIdentifierStart, Bool.or_eq_true] at hc
  simp only [isIdentifierPart, Text.isAlphanumeric, Bool.or_eq_true]
  rcases hc with (hc | hc) | hc <;> simp [hc]

theorem BeginsIdentifier.continues {cs : List Char} (h : BeginsIdentifier cs) :
    ContinuesIdentifier cs := by
  obtain ⟨c, hc, hstart⟩ := h
  exact ⟨c, hc, isIdentifierPart_of_start hstart⟩

theorem BeginsIdentifier.append {cs : List Char} (h : BeginsIdentifier cs) (ds : List Char) :
    BeginsIdentifier (cs ++ ds) := by
  obtain ⟨c, hc, hstart⟩ := h
  exact ⟨c, List.mem_head?_append_of_mem_head? hc, hstart⟩

theorem IsIdentifier.begins {cs : List Char} (h : IsIdentifier cs) : BeginsIdentifier cs := by
  match cs, h with
  | c :: _, ⟨hstart, _⟩ => exact ⟨c, rfl, hstart⟩

theorem IsIdentifier.ne_nil {cs : List Char} (h : IsIdentifier cs) : cs ≠ [] := by
  rintro rfl
  exact h

theorem IsIdentifier.part_of_mem {cs : List Char} (h : IsIdentifier cs) {c : Char} (hc : c ∈ cs) :
    isIdentifierPart c := by
  match cs, h with
  | _ :: _, ⟨hstart, hparts⟩ =>
    rcases List.mem_cons.1 hc with rfl | hc
    · exact isIdentifierPart_of_start hstart
    · exact hparts c hc

/-- The marks that references are made with do not go on an identifier. -/
theorem isIdentifierPart_mark : ∀ c ∈ ['@', '.', ':', '('], isIdentifierPart c = false := by
  intro c hc
  have hmark : c = '@' ∨ c = '.' ∨ c = ':' ∨ c = '(' := by simpa using hc
  rcases hmark with rfl | rfl | rfl | rfl <;>
    simp [isIdentifierPart, Text.isAlphanumeric, Text.isAlphabetic_of_ascii,
      Text.isNumeric_of_ascii]

theorem not_continues_mark {c : Char} (hc : c ∈ ['@', '.', ':', '(']) (cs : List Char) :
    ¬ ContinuesIdentifier (c :: cs) := by
  rintro ⟨d, hd, hpart⟩
  cases hd
  rw [isIdentifierPart_mark c hc] at hpart
  cases hpart

theorem IsIdentifier.not_mem_of_not_part {cs : List Char} (h : IsIdentifier cs) {c : Char}
    (hc : isIdentifierPart c = false) : c ∉ cs := by
  intro hmem
  have hpart := h.part_of_mem hmem
  rw [hc] at hpart
  cases hpart

theorem IsIdentifier.at_not_mem {cs : List Char} (h : IsIdentifier cs) : '@' ∉ cs :=
  h.not_mem_of_not_part (isIdentifierPart_mark '@' (by simp))

theorem takeWhile_eq_nil_of_not_continues {cs : List Char} (h : ¬ ContinuesIdentifier cs) :
    cs.takeWhile isIdentifierPart = [] ∧ cs.dropWhile isIdentifierPart = cs := by
  cases cs with
  | nil => simp
  | cons c cs =>
    have hc : isIdentifierPart c = false := by simpa [ContinuesIdentifier] using h
    simp [hc]

theorem not_continues_dropWhile (cs : List Char) :
    ¬ ContinuesIdentifier (cs.dropWhile isIdentifierPart) := by
  rintro ⟨c, hc, hpart⟩
  have hstop := List.head?_dropWhile_not isIdentifierPart cs
  rw [Option.mem_def.1 hc] at hstop
  simp [hpart] at hstop

theorem spanIdentifier_of_not_begins {cs : List Char} (h : ¬ BeginsIdentifier cs) :
    spanIdentifier cs = ([], cs) := by
  cases cs with
  | nil => rfl
  | cons c cs =>
    have hc : isIdentifierStart c = false := by simpa [BeginsIdentifier] using h
    simp [spanIdentifier, hc]

theorem spanIdentifier_append_of_isIdentifier {i rest : List Char} (hi : IsIdentifier i)
    (hrest : ¬ ContinuesIdentifier rest) : spanIdentifier (i ++ rest) = (i, rest) := by
  obtain ⟨htake, hdrop⟩ := takeWhile_eq_nil_of_not_continues hrest
  match i, hi with
  | c :: cs, ⟨hstart, hparts⟩ =>
    simp [spanIdentifier, hstart, List.takeWhile_append_of_pos hparts,
      List.dropWhile_append_of_pos hparts, htake, hdrop]

/-- Either no identifier begins, or the longest one is split off. -/
theorem spanIdentifier_cases (cs : List Char) :
    (¬ BeginsIdentifier cs ∧ spanIdentifier cs = ([], cs)) ∨
      ∃ i rest, cs = i ++ rest ∧ IsIdentifier i ∧ ¬ ContinuesIdentifier rest ∧
        spanIdentifier cs = (i, rest) := by
  by_cases h : BeginsIdentifier cs
  · obtain ⟨c, hc, hstart⟩ := h
    obtain ⟨cs, rfl⟩ : ∃ ds, cs = c :: ds := by
      cases cs <;> simp_all
    refine .inr ⟨c :: cs.takeWhile isIdentifierPart, cs.dropWhile isIdentifierPart, ?_,
      ⟨hstart, fun d hd => ?_⟩, not_continues_dropWhile cs, ?_⟩
    · simp [List.takeWhile_append_dropWhile]
    · exact List.all_eq_true.1 List.all_takeWhile d hd
    · simp [spanIdentifier, hstart]
  · exact .inl ⟨h, spanIdentifier_of_not_begins h⟩

/-! ## Qualified names -/

/-- Identifiers joined by dots. -/
inductive IsQualifiedName : List Char → Prop where
  | identifier {i : List Char} : IsIdentifier i → IsQualifiedName i
  | dotted {i n : List Char} : IsIdentifier i → IsQualifiedName n → IsQualifiedName (i ++ '.' :: n)

/-- A name that ends here would go on, within its last identifier or with a further one. -/
def ContinuesName (cs : List Char) : Prop :=
  ContinuesIdentifier cs ∨ ∃ ds, cs = '.' :: ds ∧ BeginsIdentifier ds

theorem ContinuesName.append {cs : List Char} (h : ContinuesName cs) (ds : List Char) :
    ContinuesName (cs ++ ds) := by
  rcases h with ⟨c, hc, hpart⟩ | ⟨es, rfl, hbegins⟩
  · exact .inl ⟨c, List.mem_head?_append_of_mem_head? hc, hpart⟩
  · exact .inr ⟨es ++ ds, rfl, hbegins.append ds⟩

theorem not_continuesName_nil : ¬ ContinuesName [] := by
  simp [ContinuesName, ContinuesIdentifier]

theorem IsQualifiedName.begins {n : List Char} (hn : IsQualifiedName n) : BeginsIdentifier n := by
  cases hn with
  | identifier hi => exact hi.begins
  | dotted hi _ => exact hi.begins.append _

theorem IsQualifiedName.ne_nil {n : List Char} (hn : IsQualifiedName n) : n ≠ [] := by
  cases hn with
  | identifier hi => exact hi.ne_nil
  | dotted hi _ => simp

theorem IsQualifiedName.part_or_dot_of_mem {n : List Char} (hn : IsQualifiedName n) {c : Char}
    (hc : c ∈ n) : isIdentifierPart c ∨ c = '.' := by
  induction hn with
  | identifier hi => exact .inl (hi.part_of_mem hc)
  | dotted hi _ ih =>
    rcases List.mem_append.1 hc with hc | hc
    · exact .inl (hi.part_of_mem hc)
    · rcases List.mem_cons.1 hc with rfl | hc
      · exact .inr rfl
      · exact ih hc

theorem IsQualifiedName.at_not_mem {n : List Char} (hn : IsQualifiedName n) : '@' ∉ n := by
  intro hmem
  rcases hn.part_or_dot_of_mem hmem with hpart | hdot
  · simp [isIdentifierPart_mark] at hpart
  · cases hdot

theorem spanSegments_of_not_continues {cs : List Char} (h : ¬ ContinuesName cs) :
    spanSegments cs = ([], cs) := by
  match cs with
  | [] => rw [spanSegments]; simp
  | c :: cs =>
    by_cases hc : c = '.'
    · subst hc
      have hbegin : ¬ BeginsIdentifier cs := fun hb => h (.inr ⟨cs, rfl, hb⟩)
      rw [spanSegments]
      simp [spanIdentifier_of_not_begins hbegin]
    · rw [spanSegments]
      simp [hc]

theorem spanSegments_dot {i cs more rest : List Char} (hi : IsIdentifier i)
    (hcs : ¬ ContinuesIdentifier cs) (hmore : spanSegments cs = (more, rest)) :
    spanSegments ('.' :: (i ++ cs)) = ('.' :: i ++ more, rest) := by
  have hspan := spanIdentifier_append_of_isIdentifier hi hcs
  rw [spanSegments, hspan, if_neg hi.ne_nil, hmore]

theorem spanQualifiedName_of_not_begins {cs : List Char} (h : ¬ BeginsIdentifier cs) :
    spanQualifiedName cs = ([], cs) := by
  simp [spanQualifiedName, spanIdentifier_of_not_begins h]

/-- A name is an identifier and what `spanSegments` reads after it. -/
theorem IsQualifiedName.exists_segments {n rest : List Char} (hn : IsQualifiedName n)
    (hrest : ¬ ContinuesName rest) :
    ∃ i more, n = i ++ more ∧ IsIdentifier i ∧ ¬ ContinuesIdentifier (more ++ rest) ∧
      spanSegments (more ++ rest) = (more, rest) := by
  induction hn with
  | @identifier i hi =>
    exact ⟨i, [], by simp, hi, fun hc => hrest (.inl hc), spanSegments_of_not_continues hrest⟩
  | @dotted i n hi _ ih =>
    obtain ⟨j, more, rfl, hj, hstop, hspan⟩ := ih
    refine ⟨i, '.' :: (j ++ more), rfl, hi, not_continues_mark (by simp) _, ?_⟩
    simpa using spanSegments_dot hj hstop hspan

theorem spanQualifiedName_append_of_isQualifiedName {n rest : List Char} (hn : IsQualifiedName n)
    (hrest : ¬ ContinuesName rest) : spanQualifiedName (n ++ rest) = (n, rest) := by
  obtain ⟨i, more, rfl, hi, hstop, hspan⟩ := hn.exists_segments hrest
  have hfirst : spanIdentifier (i ++ (more ++ rest)) = (i, more ++ rest) :=
    spanIdentifier_append_of_isIdentifier hi hstop
  rw [List.append_assoc]
  simp [spanQualifiedName, hfirst, hi.ne_nil, hspan]

theorem spanSegments_cases {cs : List Char} (hcs : ¬ ContinuesIdentifier cs) :
    ∃ more rest, cs = more ++ rest ∧ (∀ i, IsIdentifier i → IsQualifiedName (i ++ more)) ∧
      ¬ ContinuesName rest ∧ spanSegments cs = (more, rest) := by
  fun_induction spanSegments cs with
  | case1 cs hempty =>
    -- A dot that no identifier follows does not belong to the name.
    refine ⟨[], '.' :: cs, rfl, fun i hi => by simpa using .identifier hi, ?_, rfl⟩
    rintro (hc | ⟨ds, hds, hbegin⟩)
    · exact hcs hc
    · cases hds
      rcases spanIdentifier_cases cs with ⟨hnot, -⟩ | ⟨i, rest, -, hi, -, hspan⟩
      · exact hnot hbegin
      · exact hi.ne_nil (by rw [hspan] at hempty; exact hempty)
  | case2 cs hne more rest heq ih =>
    rcases spanIdentifier_cases cs with ⟨-, hspan⟩ | ⟨j, after, rfl, hj, hafter, hspan⟩
    · exact absurd (congrArg Prod.fst hspan) hne
    · -- The identifier after the dot may end here, so the segments after it can be read.
      rw [hspan] at heq ih ⊢
      obtain ⟨more', rest', happend, hname, hstop, hmore⟩ := ih hafter
      obtain ⟨rfl, rfl⟩ := Prod.mk.inj (hmore.symm.trans heq)
      change after = more' ++ rest' at happend
      refine ⟨'.' :: j ++ more', rest', by simp [happend], fun i hi => ?_, hstop, rfl⟩
      simpa using IsQualifiedName.dotted hi (hname j hj)
  | case3 cs hdot =>
    refine ⟨[], cs, rfl, fun i hi => by simpa using .identifier hi, ?_, rfl⟩
    rintro (hc | ⟨ds, rfl, -⟩)
    · exact hcs hc
    · exact hdot ds rfl

/-- Either no name begins, or the longest one is split off. -/
theorem spanQualifiedName_cases (cs : List Char) :
    (¬ BeginsIdentifier cs ∧ spanQualifiedName cs = ([], cs)) ∨
      ∃ n rest, cs = n ++ rest ∧ IsQualifiedName n ∧ ¬ ContinuesName rest ∧
        spanQualifiedName cs = (n, rest) := by
  -- A name needs a first identifier, to which any segments after it are added.
  rcases spanIdentifier_cases cs with ⟨hnot, -⟩ | ⟨i, after, rfl, hi, hafter, hspan⟩
  · exact .inl ⟨hnot, spanQualifiedName_of_not_begins hnot⟩
  · obtain ⟨more, rest, rfl, hname, hstop, hmore⟩ := spanSegments_cases hafter
    refine .inr ⟨i ++ more, rest, by simp, hname i hi, hstop, ?_⟩
    simp [spanQualifiedName, hspan, hi.ne_nil, hmore]

/-! ## Balanced parentheses -/

/-- A text within `depth` open parentheses closes no more than these and its own. -/
def StaysOpen (depth : Nat) (cs : List Char) : Prop :=
  ∀ p, p <+: cs → p.count ')' ≤ p.count '(' + depth

/-- Every parenthesis has its partner. -/
structure IsBalanced (cs : List Char) : Prop where
  total : cs.count ')' = cs.count '('
  staysOpen : StaysOpen 0 cs

theorem staysOpen_nil (depth : Nat) : StaysOpen depth [] := by
  intro p hp
  simp [List.prefix_nil.1 hp]

theorem staysOpen_cons_iff {depth : Nat} {c : Char} {cs : List Char} :
    StaysOpen depth (c :: cs)
      ↔ ∀ p, p <+: cs → (c :: p).count ')' ≤ (c :: p).count '(' + depth := by
  constructor
  · intro h p hp
    exact h _ (List.cons_prefix_cons.2 ⟨rfl, hp⟩)
  · intro h p hp
    rcases List.prefix_cons_iff.1 hp with rfl | ⟨q, rfl, hq⟩
    · simp
    · exact h q hq

theorem staysOpen_opening {depth : Nat} {cs : List Char} :
    StaysOpen depth ('(' :: cs) ↔ StaysOpen (depth + 1) cs := by
  rw [staysOpen_cons_iff]
  refine forall₂_congr fun p _ => ?_
  simp only [List.count_cons]
  simp
  omega

theorem staysOpen_closing {depth : Nat} {cs : List Char} :
    StaysOpen depth (')' :: cs) ↔ ∃ d, depth = d + 1 ∧ StaysOpen d cs := by
  rw [staysOpen_cons_iff]
  constructor
  · intro h
    have hfirst := h [] (List.nil_prefix ..)
    cases depth with
    | zero => simp at hfirst
    | succ d =>
      refine ⟨d, rfl, fun p hp => ?_⟩
      have := h p hp
      simp at this
      omega
  · rintro ⟨d, rfl, h⟩ p hp
    have := h p hp
    simp
    omega

theorem staysOpen_other {depth : Nat} {c : Char} {cs : List Char} (hopen : c ≠ '(')
    (hclose : c ≠ ')') : StaysOpen depth (c :: cs) ↔ StaysOpen depth cs := by
  rw [staysOpen_cons_iff]
  refine forall₂_congr fun p _ => ?_
  rw [List.count_cons_of_ne hopen, List.count_cons_of_ne hclose]

theorem spanClosing_opening (depth : Nat) (cs : List Char) :
    spanClosing depth ('(' :: cs)
      = (spanClosing (depth + 1) cs).map fun (inside, rest) => ('(' :: inside, rest) := by
  simp [spanClosing]

theorem spanClosing_closing_zero (cs : List Char) : spanClosing 0 (')' :: cs) = some ([], cs) := by
  simp [spanClosing]

theorem spanClosing_closing_succ (depth : Nat) (cs : List Char) :
    spanClosing (depth + 1) (')' :: cs)
      = (spanClosing depth cs).map fun (inside, rest) => (')' :: inside, rest) := by
  simp [spanClosing]

theorem spanClosing_other {depth : Nat} {c : Char} {cs : List Char} (hopen : c ≠ '(')
    (hclose : c ≠ ')') :
    spanClosing depth (c :: cs)
      = (spanClosing depth cs).map fun (inside, rest) => (c :: inside, rest) := by
  simp [spanClosing, hopen, hclose]

/-- The parenthesis is found that closes one more than the text before it opened. -/
theorem spanClosing_append {depth : Nat} {inside : List Char} (rest : List Char)
    (htotal : inside.count ')' = inside.count '(' + depth) (hopen : StaysOpen depth inside) :
    spanClosing depth (inside ++ ')' :: rest) = some (inside, rest) := by
  -- Each parenthesis changes the depth, and what is left has to close what is then open.
  induction inside generalizing depth with
  | nil =>
    obtain rfl : depth = 0 := by simpa using htotal.symm
    rfl
  | cons c inside ih =>
    rw [List.cons_append]
    by_cases h : c = '('
    · subst h
      have htotal' : inside.count ')' = inside.count '(' + (depth + 1) := by
        simp at htotal
        omega
      rw [spanClosing_opening, ih htotal' (staysOpen_opening.1 hopen)]
      rfl
    · by_cases h' : c = ')'
      · subst h'
        obtain ⟨d, rfl, hd⟩ := staysOpen_closing.1 hopen
        have htotal' : inside.count ')' = inside.count '(' + d := by
          simp at htotal
          omega
        rw [spanClosing_closing_succ, ih htotal' hd]
        rfl
      · rw [List.count_cons_of_ne h, List.count_cons_of_ne h'] at htotal
        rw [spanClosing_other h h', ih htotal ((staysOpen_other h h').1 hopen)]
        rfl

theorem count_of_spanClosing {depth : Nat} {cs inside rest : List Char}
    (h : spanClosing depth cs = some (inside, rest)) :
    inside.count ')' = inside.count '(' + depth ∧ StaysOpen depth inside := by
  -- Read from the front, each parenthesis leaves one more or one less to be closed.
  induction cs generalizing depth inside with
  | nil => cases h
  | cons c cs ih =>
    by_cases hopen : c = '('
    · subst hopen
      rw [spanClosing_opening] at h
      obtain ⟨⟨i, r⟩, hspan, heq⟩ := Option.map_eq_some_iff.1 h
      cases heq
      obtain ⟨htotal, hi⟩ := ih hspan
      refine ⟨?_, staysOpen_opening.2 hi⟩
      simp
      omega
    · by_cases hclose : c = ')'
      · subst hclose
        cases depth with
        | zero =>
          rw [spanClosing_closing_zero] at h
          cases h
          exact ⟨rfl, staysOpen_nil 0⟩
        | succ d =>
          rw [spanClosing_closing_succ] at h
          obtain ⟨⟨i, r⟩, hspan, heq⟩ := Option.map_eq_some_iff.1 h
          cases heq
          obtain ⟨htotal, hi⟩ := ih hspan
          refine ⟨?_, staysOpen_closing.2 ⟨d, rfl, hi⟩⟩
          simp
          omega
      · rw [spanClosing_other hopen hclose] at h
        obtain ⟨⟨i, r⟩, hspan, heq⟩ := Option.map_eq_some_iff.1 h
        cases heq
        obtain ⟨htotal, hi⟩ := ih hspan
        refine ⟨?_, (staysOpen_other hopen hclose).2 hi⟩
        rw [List.count_cons_of_ne hopen, List.count_cons_of_ne hclose, htotal]

theorem spanClosing_eq_some_iff {depth : Nat} {cs inside rest : List Char} :
    spanClosing depth cs = some (inside, rest)
      ↔ cs = inside ++ ')' :: rest ∧ inside.count ')' = inside.count '(' + depth
        ∧ StaysOpen depth inside := by
  constructor
  · intro h
    exact ⟨(append_of_spanClosing h).symm, count_of_spanClosing h⟩
  · rintro ⟨rfl, htotal, hopen⟩
    exact spanClosing_append rest htotal hopen

theorem spanClosing_eq_none_iff {depth : Nat} {cs : List Char} :
    spanClosing depth cs = none ↔ StaysOpen depth cs := by
  induction cs generalizing depth with
  | nil => simp [spanClosing, staysOpen_nil]
  | cons c cs ih =>
    by_cases hopen : c = '('
    · subst hopen
      rw [spanClosing_opening, Option.map_eq_none_iff, ih, staysOpen_opening]
    · by_cases hclose : c = ')'
      · subst hclose
        rw [staysOpen_closing]
        cases depth with
        | zero => simp [spanClosing_closing_zero]
        | succ d => simp [spanClosing_closing_succ, ih]
      · rw [spanClosing_other hopen hclose, Option.map_eq_none_iff, ih,
          staysOpen_other hopen hclose]

/-- Within one open parenthesis, a text through its partner is balanced. -/
theorem spanClosing_zero_eq_some_iff {cs inside rest : List Char} :
    spanClosing 0 cs = some (inside, rest) ↔ cs = inside ++ ')' :: rest ∧ IsBalanced inside := by
  rw [spanClosing_eq_some_iff]
  exact and_congr_right fun _ => ⟨fun h => ⟨h.1, h.2⟩, fun h => ⟨h.total, h.staysOpen⟩⟩

instance (depth : Nat) (cs : List Char) : Decidable (StaysOpen depth cs) :=
  decidable_of_iff _ spanClosing_eq_none_iff

instance (cs : List Char) : Decidable (IsBalanced cs) :=
  decidable_of_iff (cs.count ')' = cs.count '(' ∧ StaysOpen 0 cs)
    ⟨fun h => ⟨h.1, h.2⟩, fun h => ⟨h.total, h.staysOpen⟩⟩

end Jsni
