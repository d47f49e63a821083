import Mathlib
import Jsni.Problem.Basic

/-!
# Templates

A template is made of characters and of slots for arguments. Its placeholders are replaced one after
the other, each also in what arguments brought in before. Arguments without an opening brace bring
in no placeholder, so then every slot gets its own argument and nothing else changes.
-/

namespace Jsni

/-! ## Placeholders -/

/-- What comes after the brace of a placeholder. -/
def placeholderRest (n : Nat) : List Char :=
  Nat.toDigits 10 n ++ ['\x7d']

theorem placeholder_eq_cons (n : Nat) : placeholder n = '\x7b' :: placeholderRest n := by
  simp [placeholder, placeholderRest]

theorem placeholder_ne_nil (n : Nat) : placeholder n ≠ [] := by
  rw [placeholder_eq_cons]
  exact List.cons_ne_nil _ _

theorem isDigit_of_mem_toDigits_ten {n : Nat} {c : Char} (hc : c ∈ Nat.toDigits 10 n) : c.isDigit :=
  Nat.isDigit_of_mem_toDigits (by decide) (by decide) hc

theorem brace_not_mem_placeholderRest (n : Nat) : '\x7b' ∉ placeholderRest n := by
  intro hmem
  rcases List.mem_append.1 hmem with hdigit | hclose
  · exact absurd (isDigit_of_mem_toDigits_ten hdigit) (by decide)
  · exact absurd hclose (by decide)

theorem takeWhile_isDigit_placeholderRest_append (n : Nat) (cs : List Char) :
    (placeholderRest n ++ cs).takeWhile Char.isDigit = Nat.toDigits 10 n := by
  rw [placeholderRest, List.append_assoc,
    List.takeWhile_append_of_pos fun c hc => isDigit_of_mem_toDigits_ten hc, List.singleton_append,
    List.takeWhile_cons_of_neg (by decide), List.append_nil]

/-- The number whose placeholder a text begins with. -/
def leadingSlot? (cs : List Char) : Option Nat :=
  let n := Nat.ofDigitChars 10 (cs.tail.takeWhile Char.isDigit) 0
  if placeholder n <+: cs then some n else none

theorem leadingSlot?_placeholder_append (n : Nat) (cs : List Char) :
    leadingSlot? (placeholder n ++ cs) = some n := by
  have hread : Nat.ofDigitChars 10 ((placeholder n ++ cs).tail.takeWhile Char.isDigit) 0 = n := by
    rw [placeholder_eq_cons, List.cons_append, List.tail_cons,
      takeWhile_isDigit_placeholderRest_append, Nat.ofDigitChars_ten_toDigits]
  simp only [leadingSlot?, hread]
  exact if_pos (List.prefix_append ..)

theorem leadingSlot?_eq_some_iff {cs : List Char} {n : Nat} :
    leadingSlot? cs = some n ↔ placeholder n <+: cs := by
  constructor
  · intro h
    simp only [leadingSlot?] at h
    split at h
    · cases h
      assumption
    · cases h
  · rintro ⟨rest, rfl⟩
    exact leadingSlot?_placeholder_append n rest

/-! ## Replacing a placeholder -/

theorem replaceAll_nil (old new : List Char) : replaceAll old new [] = [] := by
  rw [replaceAll]

theorem replaceAll_cons_of_not_isPrefix {old cs : List Char} {c : Char} (h : ¬ old <+: c :: cs)
    (new : List Char) : replaceAll old new (c :: cs) = c :: replaceAll old new cs := by
  rw [replaceAll, if_neg]
  rintro ⟨-, hprefix⟩
  exact h (List.isPrefixOf_iff_prefix.1 hprefix)

theorem replaceAll_append_self {old : List Char} (hold : old ≠ []) (new cs : List Char) :
    replaceAll old new (old ++ cs) = new ++ replaceAll old new cs := by
  obtain ⟨c, old, rfl⟩ := List.exists_cons_of_ne_nil hold
  rw [List.cons_append, replaceAll, if_pos, List.length_cons, Nat.add_sub_cancel, List.drop_left]
  exact ⟨hold, List.isPrefixOf_iff_prefix.2 (List.prefix_append ..)⟩

theorem replaceAll_placeholder_append_of_not_mem {i : Nat} {new text : List Char}
    (h : '\x7b' ∉ text) (cs : List Char) :
    replaceAll (placeholder i) new (text ++ cs) = text ++ replaceAll (placeholder i) new cs := by
  induction text with
  | nil => rfl
  | cons c text ih =>
    have hother : ¬ placeholder i <+: c :: (text ++ cs) := by
      rw [placeholder_eq_cons]
      intro hprefix
      exact h (List.mem_cons.2 (.inl (List.cons_prefix_cons.1 hprefix).1))
    rw [List.cons_append, replaceAll_cons_of_not_isPrefix hother,
      ih fun hmem => h (List.mem_cons_of_mem _ hmem), List.cons_append]

theorem replaceAll_placeholder_append_placeholder {i n : Nat} (h : i ≠ n) (new cs : List Char) :
    replaceAll (placeholder i) new (placeholder n ++ cs)
      = placeholder n ++ replaceAll (placeholder i) new cs := by
  have hother : ¬ placeholder i <+: placeholder n ++ cs := by
    intro hprefix
    have hslot := leadingSlot?_eq_some_iff.2 hprefix
    rw [leadingSlot?_placeholder_append] at hslot
    exact h (Option.some.inj hslot).symm
  rw [placeholder_eq_cons n, List.cons_append] at hother ⊢
  rw [replaceAll_cons_of_not_isPrefix hother,
    replaceAll_placeholder_append_of_not_mem (brace_not_mem_placeholderRest n), List.cons_append]

/-! ## Pieces of a template -/

/-- A character of a template or a place for an argument. -/
inductive Piece where
  | char (c : Char)
  | slot (n : Nat)
deriving DecidableEq, Repr

/-- The pieces of a text, where every placeholder makes a slot. -/
def readPieces (cs : List Char) : List Piece :=
  match cs with
  | []      => []
  | c :: cs =>
    match leadingSlot? (c :: cs) with
    | none   => .char c :: readPieces cs
    | some n => .slot n :: readPieces (cs.drop ((placeholder n).length - 1))
termination_by cs.length
decreasing_by
  all_goals simp only [List.length_cons, List.length_drop]
  · omega
  · omega

namespace Piece

def slot? : Piece → Option Nat
  | char _ => none
  | slot n => some n

/-- The text of a piece with its argument filled in, if there is one. -/
def fill (args : List String) : Piece → List Char
  | char c => [c]
  | slot n => args[n]?.elim (placeholder n) String.toList

end Piece

/-- The pieces of a text, with nothing filled in, are the text. -/
theorem flatMap_fill_nil_readPieces (cs : List Char) :
    (readPieces cs).flatMap (Piece.fill []) = cs := by
  fun_induction readPieces cs with
  | case1 => rfl
  | case2 c cs hslot ih => rw [List.flatMap_cons, ih, Piece.fill, List.singleton_append]
  | case3 c cs n hslot ih =>
    obtain ⟨rest, hrest⟩ := leadingSlot?_eq_some_iff.1 hslot
    rw [placeholder_eq_cons, List.cons_append] at hrest
    cases hrest
    rw [List.flatMap_cons, ih]
    simp [Piece.fill, placeholder_eq_cons]

/-! ## Filling one placeholder after the other -/

theorem Piece.replaceAll_fill_append {p : Piece} {args : List String} (hp : p ≠ .char '\x7b')
    (hargs : ∀ arg ∈ args, '\x7b' ∉ arg.toList) (arg : String) (cs : List Char) :
    replaceAll (placeholder args.length) arg.toList (p.fill args ++ cs)
      = p.fill (args ++ [arg]) ++ replaceAll (placeholder args.length) arg.toList cs := by
  cases p with
  | char c =>
    refine replaceAll_placeholder_append_of_not_mem ?_ cs
    intro hmem
    exact hp (congrArg Piece.char (List.mem_singleton.1 hmem).symm)
  | slot n =>
    rcases Nat.lt_trichotomy n args.length with hlt | rfl | hgt
    · -- The slot has its argument already, and that brings in no placeholder.
      simp only [fill, List.getElem?_append_left hlt, List.getElem?_eq_getElem hlt,
        Option.elim_some]
      exact replaceAll_placeholder_append_of_not_mem (hargs _ (List.getElem_mem hlt)) cs
    · -- It is the turn of this slot.
      have hnone : args[args.length]? = none := List.getElem?_eq_none (Nat.le_refl _)
      simp only [fill, hnone, List.getElem?_concat_length, Option.elim_none, Option.elim_some]
      exact replaceAll_append_self (placeholder_ne_nil _) ..
    · -- The placeholder is for an argument still to come.
      have hnone : args[n]? = none := List.getElem?_eq_none (Nat.le_of_lt hgt)
      have hnone' : (args ++ [arg])[n]? = none := List.getElem?_eq_none (by
        simpa using Nat.succ_le_of_lt hgt)
      simp only [fill, hnone, hnone', Option.elim_none]
      exact replaceAll_placeholder_append_placeholder (Nat.ne_of_lt hgt) ..

theorem replaceAll_flatMap_fill {ps : List Piece} {args : List String}
    (hps : .char '\x7b' ∉ ps) (hargs : ∀ arg ∈ args, '\x7b' ∉ arg.toList) (arg : String) :
    replaceAll (placeholder args.length) arg.toList (ps.flatMap (Piece.fill args))
      = ps.flatMap (Piece.fill (args ++ [arg])) := by
  induction ps with
  | nil => exact replaceAll_nil ..
  | cons p ps ih =>
    have hp : p ≠ .char '\x7b' := fun h => hps (h ▸ List.mem_cons_self ..)
    rw [List.flatMap_cons, List.flatMap_cons, p.replaceAll_fill_append hp hargs,
      ih fun h => hps (List.mem_cons_of_mem _ h)]

/-- Arguments fill their slots, one after the other, where none but the last brings in a brace. -/
theorem fillFrom_flatMap_fill {ps : List Piece} (hps : .char '\x7b' ∉ ps) {args more : List String}
    (hargs : ∀ arg ∈ (args ++ more).dropLast, '\x7b' ∉ arg.toList) :
    fillFrom args.length more (ps.flatMap (Piece.fill args))
      = ps.flatMap (Piece.fill (args ++ more)) := by
  induction more generalizing args with
  | nil => rw [fillFrom, List.append_nil]
  | cons arg more ih =>
    have hbefore : ∀ a ∈ args, '\x7b' ∉ a.toList := by
      intro a ha
      rw [List.dropLast_append_of_ne_nil (List.cons_ne_nil arg more)] at hargs
      exact hargs a (List.mem_append_left _ ha)
    rw [List.append_cons] at hargs ⊢
    have hrest := ih hargs
    rw [List.length_append, List.length_singleton] at hrest
    rw [fillFrom, replaceAll_flatMap_fill hps hbefore, hrest]

/-! ## Templates of problems -/

namespace ProblemKind

/-- How many arguments the message takes. -/
def arity : ProblemKind → Nat
  | parseError       => 1
  | unresolvedType   => 1
  | unresolvedMethod => 2
  | unresolvedField  => 2
  | ambiguous        => 3

def pieces (k : ProblemKind) : List Piece :=
  readPieces k.template.toList

/-- The numbers of the placeholders, in order. -/
def slots (k : ProblemKind) : List Nat :=
  k.pieces.filterMap Piece.slot?

/-- The template with its placeholders replaced all at once, as far as there are arguments. -/
def fill (k : ProblemKind) (args : List String) : List Char :=
  k.pieces.flatMap (Piece.fill args)

theorem slots_eq_range (k : ProblemKind) : k.slots = List.range k.arity := by
  cases k <;> cbv

theorem lt_arity_of_slot_mem_pieces {k : ProblemKind} {n : Nat} (h : .slot n ∈ k.pieces) :
    n < k.arity := by
  rw [← List.mem_range, ← slots_eq_range]
  exact List.mem_filterMap.2 ⟨_, h, rfl⟩

theorem brace_not_mem_pieces (k : ProblemKind) : .char '\x7b' ∉ k.pieces := by
  have hcontains : k.pieces.contains (.char '\x7b') = false := by cases k <;> cbv
  intro hmem
  rw [List.contains_iff_mem.2 hmem] at hcontains
  cases hcontains

theorem fillFrom_template (k : ProblemKind) {args : List String}
    (hargs : ∀ arg ∈ args.dropLast, '\x7b' ∉ arg.toList) :
    fillFrom 0 args k.template.toList = k.fill args := by
  have hfilled := @fillFrom_flatMap_fill k.pieces k.brace_not_mem_pieces [] args hargs
  rwa [pieces, flatMap_fill_nil_readPieces] at hfilled

/-- At every stage of filling the template, the arguments so far stand in their places and the
placeholders of the others are still there. -/
theorem fillFrom_take_template (k : ProblemKind) {args : List String}
    (hargs : ∀ arg ∈ args.dropLast, '\x7b' ∉ arg.toList) (i : Nat) :
    fillFrom 0 (args.take i) k.template.toList = k.fill (args.take i) := by
  refine k.fillFrom_template fun arg harg => hargs arg ?_
  rw [List.dropLast_eq_take, List.take_take] at harg
  rw [List.dropLast_eq_take]
  refine List.take_subset_take_left args ?_ harg
  rw [List.length_take]
  omega

end ProblemKind

end Jsni
