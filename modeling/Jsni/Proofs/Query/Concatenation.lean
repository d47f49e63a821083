import Jsni.Proofs.Query.Terms
import Jsni.Proofs.Text.Word

/-!
# One query after another

White space ends the term and the word before it. If the quotes before it pair up among themselves,
the query goes on behind it as if it began there.
-/

namespace Jsni.Query

open Text

/-- The term, with so many words before its own. -/
def Term.shift (words : Nat) (t : Term) : Term :=
  { t with position := t.position + words }

namespace Splitter

/-! ## Terms and words that came before -/

/-- The state of a query with other terms and words before it. -/
def behind (terms : List Term) (words : Nat) (s : Splitter) : Splitter :=
  { s with terms := terms ++ s.terms.map (Term.shift words), word := s.word + words }

section Behind

variable (terms : List Term) (words : Nat) (s : Splitter)

theorem flush_behind : (s.behind terms words).flush = s.flush.behind terms words := by
  unfold flush behind
  cases s.hasAlphanumeric <;> simp [Term.shift]

theorem endWord_behind : (s.behind terms words).endWord = s.endWord.behind terms words := by
  unfold endWord behind
  cases hword : s.inWord <;> simp [hword, Nat.add_right_comm]

theorem quote_behind : (s.behind terms words).quote = s.quote.behind terms words := by
  unfold quote behind
  cases hquoted : s.quoted with
  | true => rfl
  | false => by_cases hopen : 0 < s.openQuotes <;> simp [hopen, hquoted]

/-- What came before has no part in a step. -/
theorem step_behind (c : Char) :
    (s.behind terms words).step c = (s.step c).behind terms words := by
  cases hblank : isBlank c with
  | true => rw [step_blank _ hblank, step_blank _ hblank, flush_behind, endWord_behind]
  | false =>
    cases hquote : isQuote c with
    | true =>
      rw [step_quote _ hblank hquote, step_quote _ hblank hquote, flush_behind]
      exact quote_behind terms words { s.flush with inWord := true }
    | false =>
      have hclosed : (s.behind terms words).closed = s.closed := rfl
      rw [step_of_not_separator _ hblank hquote, step_of_not_separator _ hblank hquote, hclosed]
      cases isAlphanumeric c with
      | true =>
        cases s.closed with
        | true =>
          have hflush := flush_behind terms words { s with inWord := true }
          exact congrArg (fun s => { push s c with hasAlphanumeric := true }) hflush
        | false => rfl
      | false => cases isWildcard c <;> rfl

theorem foldl_step_behind (cs : List Char) :
    cs.foldl step (s.behind terms words) = (cs.foldl step s).behind terms words := by
  induction cs generalizing s with
  | nil => rfl
  | cons c cs ih => rw [List.foldl_cons, List.foldl_cons, step_behind, ih]

end Behind

/-! ## Quotes that come after -/

/-- The state of a query with more quotes to be paired. -/
def expecting (more : Nat) (s : Splitter) : Splitter :=
  { s with openQuotes := s.openQuotes + more }

theorem isBlank_of_isQuote {c : Char} (h : isQuote c) : isBlank c = false := by
  rw [of_decide_eq_true h]
  rfl

/-- All quotes of what is to come are paired, the first of them with an open one if there is one. -/
structure PairsUp (s : Splitter) (cs : List Char) : Prop where
  even : s.openQuotes % 2 = 0
  count : cs.countP isQuote = s.openQuotes + if s.quoted then 1 else 0

theorem pairsUp_init {cs : List Char} (h : cs.countP isQuote % 2 = 0) :
    PairsUp { openQuotes := pairedQuotes cs } cs where
  even := by simp [pairedQuotes]
  count := by
    simp only [pairedQuotes, Bool.false_eq_true, if_false]
    omega

/-- Where a quote opens a phrase, its partner is still to come. -/
theorem PairsUp.openQuotes_eq {s : Splitter} {cs : List Char} {c : Char}
    (h : s.PairsUp (c :: cs)) (hc : isQuote c) (hquoted : s.quoted = false) :
    s.openQuotes = cs.countP isQuote + 1 := by
  have hcount := h.count
  rw [List.countP_cons_of_pos hc, hquoted] at hcount
  exact hcount.symm

theorem PairsUp.quote {s : Splitter} {cs : List Char} {c : Char} (h : s.PairsUp (c :: cs))
    (hc : isQuote c) : s.quote.PairsUp cs := by
  have heven := h.even
  unfold Splitter.quote
  cases hquoted : s.quoted with
  | true =>
    have hcount := h.count
    rw [List.countP_cons_of_pos hc, hquoted] at hcount
    exact ⟨heven, Nat.succ.inj hcount⟩
  | false =>
    have hopen := h.openQuotes_eq hc hquoted
    rw [if_neg (by simp), if_pos (by omega)]
    refine ⟨?_, ?_⟩
    · simp only
      omega
    · simp only [if_true]
      omega

theorem PairsUp.quote_expecting {s : Splitter} {cs : List Char} {c : Char}
    (h : s.PairsUp (c :: cs)) (hc : isQuote c) (more : Nat) :
    (s.expecting more).quote = s.quote.expecting more := by
  have heven := h.even
  unfold Splitter.quote expecting
  cases hquoted : s.quoted with
  | true => rfl
  | false =>
    -- The quote opens a phrase also without the others.
    have hopen := h.openQuotes_eq hc hquoted
    have hrest : s.openQuotes + more - 2 = s.openQuotes - 2 + more := by omega
    rw [if_neg (by simp), if_pos (by simp only; omega), if_neg (by simp), if_pos (by omega)]
    simp only [hrest]

theorem PairsUp.flush {s : Splitter} {cs : List Char} (h : s.PairsUp cs) :
    PairsUp { s.flush with inWord := true } cs :=
  ⟨h.even, h.count⟩

/-- A character that separates nothing changes the pending term only. -/
theorem exists_step_of_not_separator (s : Splitter) {c : Char} (hblank : isBlank c = false)
    (hquote : isQuote c = false) :
    ∃ terms pending hasAlphanumeric closed,
      s.step c = { s with terms, pending, hasAlphanumeric, closed, inWord := true } := by
  rw [step_of_not_separator s hblank hquote]
  cases isAlphanumeric c with
  | true => cases s.closed <;> exact ⟨_, _, _, _, rfl⟩
  | false => cases isWildcard c <;> exact ⟨_, _, _, _, rfl⟩

theorem step_openQuotes (s : Splitter) {c : Char} (hc : isQuote c = false) :
    (s.step c).openQuotes = s.openQuotes ∧ (s.step c).quoted = s.quoted := by
  cases hblank : isBlank c with
  | true =>
    rw [step_blank _ hblank, endWord]
    split <;> exact ⟨rfl, rfl⟩
  | false =>
    obtain ⟨_, _, _, _, hstep⟩ := exists_step_of_not_separator s hblank hc
    rw [hstep]
    exact ⟨rfl, rfl⟩

theorem step_expecting_of_not_isQuote (s : Splitter) (more : Nat) {c : Char}
    (hc : isQuote c = false) : (s.expecting more).step c = (s.step c).expecting more := by
  cases hblank : isBlank c with
  | true =>
    rw [step_blank _ hblank, step_blank _ hblank]
    unfold endWord expecting flush
    cases s.inWord <;> simp
  | false =>
    rw [step_of_not_separator _ hblank hc, step_of_not_separator _ hblank hc]
    unfold expecting flush push
    cases isAlphanumeric c <;> cases isWildcard c <;> cases s.closed <;> simp

theorem PairsUp.step {s : Splitter} {cs : List Char} {c : Char} (h : s.PairsUp (c :: cs)) :
    (s.step c).PairsUp cs := by
  cases hc : isQuote c with
  | true =>
    rw [step_quote _ (isBlank_of_isQuote hc) hc]
    exact h.flush.quote hc
  | false =>
    obtain ⟨hopen, hquoted⟩ := step_openQuotes s hc
    have hcount := h.count
    rw [List.countP_cons_of_neg (by simp [hc])] at hcount
    exact ⟨by rw [hopen, h.even], by rw [hopen, hquoted, hcount]⟩

/-- While the quotes pair up, those that come after have no part in a step. -/
theorem PairsUp.step_expecting {s : Splitter} {cs : List Char} {c : Char}
    (h : s.PairsUp (c :: cs)) (more : Nat) :
    (s.expecting more).step c = (s.step c).expecting more := by
  cases hc : isQuote c with
  | true =>
    have hblank := isBlank_of_isQuote hc
    rw [step_quote _ hblank hc, step_quote _ hblank hc]
    exact h.flush.quote_expecting hc more
  | false => exact step_expecting_of_not_isQuote s more hc

theorem PairsUp.foldl_step_expecting {s : Splitter} {cs : List Char} (h : s.PairsUp cs)
    (more : Nat) :
    (cs.foldl Splitter.step s).PairsUp []
      ∧ cs.foldl Splitter.step (s.expecting more) = (cs.foldl Splitter.step s).expecting more := by
  induction cs generalizing s with
  | nil => exact ⟨h, rfl⟩
  | cons c cs ih =>
    rw [List.foldl_cons, List.foldl_cons, h.step_expecting]
    exact ih h.step

/-! ## Words -/

theorem step_word (s : Splitter) (c : Char) :
    (s.step c).inWord = (! isBlank c)
      ∧ (s.step c).word = if s.inWord && isBlank c then s.word + 1 else s.word := by
  cases hblank : isBlank c with
  | true =>
    rw [step_blank _ hblank]
    unfold endWord flush
    cases s.inWord <;> simp
  | false =>
    rw [Bool.and_false]
    cases hquote : isQuote c with
    | true =>
      rw [step_quote _ hblank hquote, quote]
      split
      · exact ⟨rfl, rfl⟩
      · split <;> exact ⟨rfl, rfl⟩
    | false =>
      obtain ⟨_, _, _, _, hstep⟩ := exists_step_of_not_separator s hblank hquote
      rw [hstep]
      exact ⟨rfl, rfl⟩

/-- The number of words, one that is still going on included. -/
theorem word_foldl_step (s : Splitter) (cs : List Char) :
    (cs.foldl step s).endWord.word
      = s.word + if s.inWord then (words (cs.dropWhile (! isBlank ·))).length + 1
          else (words cs).length := by
  induction cs generalizing s with
  | nil =>
    rw [List.foldl_nil, endWord, List.dropWhile_nil, words_nil]
    cases s.inWord <;> rfl
  | cons c cs ih =>
    obtain ⟨hinWord, hword⟩ := step_word s c
    rw [List.foldl_cons, ih, hinWord, hword]
    cases hblank : isBlank c with
    | true =>
      rw [List.dropWhile_cons_of_neg (by simp [hblank]), words_cons_of_isBlank hblank]
      cases s.inWord with
      | true =>
        simp
        omega
      | false => simp
    | false =>
      rw [List.dropWhile_cons_of_pos (by simp [hblank]), words_cons_of_not_isBlank hblank]
      cases s.inWord <;> simp

/-! ## The seam -/

theorem foldl_step_blank (openQuotes : Nat) {blank : List Char} (h : ∀ c ∈ blank, isBlank c) :
    blank.foldl step { openQuotes } = { openQuotes } := by
  induction blank with
  | nil => rfl
  | cons c blank ih =>
    obtain ⟨hc, h⟩ := List.forall_mem_cons.1 h
    rw [List.foldl_cons, step_blank _ hc]
    exact ih h

/-- White space outside of phrases leaves nothing of a query but its terms and its words. -/
theorem PairsUp.step_blank_expecting {s : Splitter} (h : s.PairsUp []) (more : Nat) {c : Char}
    (hc : isBlank c) :
    (s.expecting more).step c
      = ({ openQuotes := more } : Splitter).behind s.flush.terms s.endWord.word := by
  obtain ⟨-, hcount⟩ := h
  have hopen : s.openQuotes = 0 ∧ s.quoted = false := by
    rw [List.countP_nil, eq_comm, Nat.add_eq_zero_iff] at hcount
    exact ⟨hcount.1, by simpa using hcount.2⟩
  rw [step_blank _ hc]
  unfold expecting Splitter.flush endWord behind
  cases s.inWord <;> simp [hopen]

end Splitter

/-! ## Queries -/

theorem countP_isQuote_of_isBlank {blank : List Char} (h : ∀ c ∈ blank, isBlank c) :
    blank.countP isQuote = 0 :=
  Stretch.countP_isQuote_eq_zero fun c hc => Splitter.isQuote_of_isBlank (h c hc)

/-- White space between two texts makes the terms of both the terms of the whole, if the quotes of
the first pair up. -/
theorem termsOfChars_append_cons {first blank second : List Char} {c : Char}
    (hquotes : first.countP isQuote % 2 = 0) (hc : isBlank c) (hblank : ∀ d ∈ blank, isBlank d) :
    termsOfChars (first ++ c :: (blank ++ second))
      = termsOfChars first
        ++ (termsOfChars second).map (Term.shift (words first).length) := by
  have htotal : pairedQuotes (first ++ c :: (blank ++ second))
      = pairedQuotes first + pairedQuotes second := by
    simp only [pairedQuotes, List.countP_append, List.countP_cons, countP_isQuote_of_isBlank hblank,
      Splitter.isQuote_of_isBlank hc, Bool.false_eq_true, if_false]
    omega
  obtain ⟨hpairs, hfirst⟩ :=
    (Splitter.pairsUp_init hquotes).foldl_step_expecting (pairedQuotes second)
  have hwords : (first.foldl Splitter.step { openQuotes := pairedQuotes first }).endWord.word
      = (words first).length := by
    rw [Splitter.word_foldl_step]
    simp
  have hinit : ({ openQuotes := pairedQuotes first + pairedQuotes second } : Splitter)
      = Splitter.expecting (pairedQuotes second) { openQuotes := pairedQuotes first } := rfl
  unfold termsOfChars
  rw [htotal, List.foldl_append, List.foldl_cons, List.foldl_append, hinit, hfirst,
    hpairs.step_blank_expecting _ hc, Splitter.foldl_step_behind,
    Splitter.foldl_step_blank _ hblank, Splitter.foldl_step_behind, Splitter.flush_behind, hwords]
  rfl

/-- A query with paired quotes, white space and any query: first the terms of the one, then those of
the other, as many words further on as the first has. -/
theorem terms_append_blank_append {first blank second : String}
    (hquotes : first.toList.countP isQuote % 2 = 0) (hne : blank ≠ "")
    (hblank : ∀ c ∈ blank.toList, isBlank c) :
    terms (first ++ blank ++ second)
      = terms first ++ (terms second).map fun t =>
          { t with position := t.position + (words first.toList).length } := by
  cases hchars : blank.toList with
  | nil => exact absurd (String.toList_eq_nil_iff.1 hchars) hne
  | cons c rest =>
    rw [hchars] at hblank
    obtain ⟨hc, hrest⟩ := List.forall_mem_cons.1 hblank
    have happend : termsOfChars (first.toList ++ c :: (rest ++ second.toList)) = _ :=
      termsOfChars_append_cons hquotes hc hrest
    rwa [← List.cons_append, ← hchars, ← List.append_assoc, ← String.toList_append,
      ← String.toList_append] at happend

theorem terms_append_blank_append_phrases :
    "\"a b\" c".toList.countP isQuote % 2 = 0 ∧ (∀ c ∈ " \t".toList, isBlank c)
      ∧ terms ("\"a b\" c" ++ " \t" ++ "\"d e\" \"f")
        = [⟨"a", true, 0⟩, ⟨"b", true, 1⟩, ⟨"c", false, 2⟩, ⟨"d", true, 3⟩, ⟨"e", true, 4⟩,
            ⟨"f", false, 5⟩] := by
  have hquotes : "\"a b\" c".toList.countP isQuote % 2 = 0 := by decide
  have hblank : ∀ c ∈ " \t".toList, isBlank c := List.all_eq_true.1 (by decide)
  have hwords : (words "\"a b\" c".toList).length = 3 := by cbv
  refine ⟨hquotes, hblank, ?_⟩
  rw [terms_append_blank_append hquotes (by decide) hblank, hwords]
  rfl

end Jsni.Query
