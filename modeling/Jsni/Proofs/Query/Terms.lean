import Jsni.Proofs.Query.Stretch

/-!
# One pass over a query

The splitter goes through a query once and makes all cuts as it goes. Its state between two
characters follows from the number of quotes so far and from the chunk that is pending; from this
the terms of a chunk, a piece, a run and at last the whole query are found one after the other.
-/

namespace Jsni.Query

open Text

/-! ## Terms of stretches -/

/-- The term that a chunk is, if it is one. -/
def chunkTerm (quoted : Bool) (position : Nat) (chunk : List Char) : List Term :=
  if chunk.any isAlphanumeric then [⟨.ofList chunk, quoted, position⟩] else []

/-- The terms among chunks of a run. -/
def termsOfChunks (position : Nat) (chunks : List Stretch) : List Term :=
  (chunks.filter Stretch.hasAlphanumeric).map fun chunk =>
    ⟨.ofList chunk.chars, chunk.isQuoted, position⟩

/-- The terms of a run, piece by piece. -/
def termsOfRun (position : Nat) (run : Stretch) : List Term :=
  (run.splitOn isQuote).flatMap fun piece => termsOfChunks position piece.chunks

theorem termsOfChunks_cons (position : Nat) (chunk : Stretch) (chunks : List Stretch) :
    termsOfChunks position (chunk :: chunks)
      = chunkTerm chunk.isQuoted position chunk.chars ++ termsOfChunks position chunks := by
  unfold termsOfChunks chunkTerm
  rw [List.filter_cons, Stretch.hasAlphanumeric]
  split <;> rfl

theorem termsOfRun_of_isEmpty {run : Stretch} (h : run.chars.isEmpty) (position : Nat) :
    termsOfRun position run = [] := by
  have hnil : run.chars = [] := List.isEmpty_iff.1 h
  rw [termsOfRun, Stretch.splitOn_of_forall (by simp [hnil]), List.flatMap_singleton,
    Stretch.chunks, hnil]
  rfl

/-! ## Quotes -/

namespace Splitter

/-- Whether what follows some of the quotes is quoted. -/
def quotedAfter (total quotes : Nat) : Bool :=
  quotes % 2 = 1 && quotes < total

/-- The quotes that are still there to be paired after some of them. -/
def openAfter (total quotes : Nat) : Nat :=
  (total / 2 - (quotes + 1) / 2) * 2

theorem quotedAfter_iff {total quotes : Nat} :
    quotedAfter total quotes ↔ quotes % 2 = 1 ∧ quotes < total := by
  simp [quotedAfter]

theorem quotedAfter_succ (total quotes : Nat) :
    quotedAfter total (quotes + 1)
      = (! quotedAfter total quotes && decide (0 < openAfter total quotes)) := by
  rw [Bool.eq_iff_iff, Bool.and_eq_true, Bool.not_eq_true', ← Bool.not_eq_true, quotedAfter_iff,
    quotedAfter_iff, decide_eq_true_eq, openAfter]
  omega

theorem openAfter_succ (total quotes : Nat) :
    openAfter total (quotes + 1)
      = if quotedAfter total quotes then openAfter total quotes
        else openAfter total quotes - 2 := by
  simp only [quotedAfter_iff, openAfter]
  split <;> omega

theorem isQuoted_eq_quotedAfter {s : Stretch} {total : Nat}
    (htotal : s.text.countP isQuote = total) (h : ∀ c ∈ s.chars, isQuote c = false) :
    s.isQuoted = quotedAfter total (s.before.countP isQuote) := by
  rw [Bool.eq_iff_iff, Stretch.isQuoted_iff h, quotedAfter_iff, htotal]

/-! ## Steps -/

/-- The state after some of the quotes, `total` in all. -/
def reached (total quotes : Nat) (terms : List Term) (word : Nat) (inWord : Bool)
    (pending : List Char) : Splitter where
  terms
  pending
  hasAlphanumeric := pending.any isAlphanumeric
  closed := endsTerm pending
  word
  inWord
  quoted := quotedAfter total quotes
  openQuotes := openAfter total quotes

/-- The state at the beginning of a query. -/
theorem eq_reached_zero (cs : List Char) :
    ({ openQuotes := pairedQuotes cs } : Splitter)
      = reached (cs.countP isQuote) 0 [] 0 false [] := by
  simp [reached, quotedAfter, openAfter, pairedQuotes]

variable (total quotes : Nat) (terms : List Term) (word : Nat) (inWord : Bool)
  (pending : List Char)

theorem flush_reached :
    (reached total quotes terms word inWord pending).flush
      = reached total quotes (terms ++ chunkTerm (quotedAfter total quotes) word pending) word
          inWord [] := by
  unfold flush reached chunkTerm
  cases pending.any isAlphanumeric <;> simp

theorem quote_reached :
    { reached total quotes terms word inWord [] with inWord := true }.quote
      = reached total (quotes + 1) terms word true [] := by
  unfold reached
  rw [quotedAfter_succ, openAfter_succ]
  cases quotedAfter total quotes with
  | true => rfl
  | false =>
    by_cases hopen : 0 < openAfter total quotes
    · simp [quote, hopen]
    · simp [quote, Nat.eq_zero_of_not_pos hopen]

theorem endWord_reached :
    (reached total quotes terms word inWord []).endWord
      = reached total quotes terms (if inWord then word + 1 else word) false [] := by
  cases inWord <;> rfl

theorem step_blank (s : Splitter) {c : Char} (hc : isBlank c) : s.step c = s.flush.endWord := by
  rw [step, if_pos hc]

theorem step_quote (s : Splitter) {c : Char} (hblank : isBlank c = false) (hc : isQuote c) :
    s.step c = { s.flush with inWord := true }.quote := by
  simp only [step, hblank, hc, if_true, Bool.false_eq_true, if_false]
  rfl

/-- What becomes of a character that separates nothing. -/
theorem step_of_not_separator (s : Splitter) {c : Char} (hblank : isBlank c = false)
    (hquote : isQuote c = false) :
    s.step c =
      if isAlphanumeric c then
        { (if s.closed then { s with inWord := true }.flush else { s with inWord := true }).push c
            with hasAlphanumeric := true }
      else if isWildcard c then { s.push c with inWord := true, closed := s.hasAlphanumeric }
      else { s.push c with inWord := true } := by
  simp [step, hblank, hquote, push]

theorem step_cut {c : Char} (hblank : isBlank c = false) (hquote : isQuote c = false)
    (hc : isAlphanumeric c) (hends : endsTerm pending) :
    (reached total quotes terms word inWord pending).step c
      = reached total quotes (terms ++ chunkTerm (quotedAfter total quotes) word pending) word
          true [c] := by
  have hflush := flush_reached total quotes terms word true pending
  rw [step_of_not_separator _ hblank hquote, if_pos hc]
  simp only [reached, hends, if_true] at hflush ⊢
  rw [hflush]
  simp [push, hc]

theorem step_within {c : Char} (hblank : isBlank c = false) (hquote : isQuote c = false)
    (hc : (isAlphanumeric c && endsTerm pending) = false) :
    (reached total quotes terms word inWord pending).step c
      = reached total quotes terms word true (pending ++ [c]) := by
  rw [step_of_not_separator _ hblank hquote]
  unfold reached
  rw [endsTerm_concat, List.any_append]
  cases halpha : isAlphanumeric c with
  | true =>
    have hopen : endsTerm pending = false := by simpa [halpha] using hc
    simp [hopen, push, halpha, isWildcard_of_isAlphanumeric halpha]
  | false =>
    cases hwildcard : isWildcard c with
    | false => simp [push, halpha]
    | true =>
      -- A further wildcard is behind the same alphanumeric character as one before it.
      have hends : (endsTerm pending || pending.any isAlphanumeric)
          = pending.any isAlphanumeric := by
        cases h : endsTerm pending with
        | false => rfl
        | true =>
          rw [any_isAlphanumeric_of_endsTerm h]
          rfl
      simp [push, halpha, hends]

/-! ## Passes -/

variable {total quotes}

theorem flush_foldl_chunks {after before pending cs : List Char}
    (hblank : ∀ c ∈ cs, isBlank c = false) (hquote : ∀ c ∈ cs, isQuote c = false)
    (hquoted : ∀ chunk ∈ chunksFrom after before pending cs,
      chunk.isQuoted = quotedAfter total quotes) :
    (cs.foldl step (reached total quotes terms word inWord pending)).flush
      = reached total quotes
          (terms ++ termsOfChunks word (chunksFrom after before pending cs)) word
          (inWord || ! cs.isEmpty) [] := by
  fun_induction chunksFrom after before pending cs generalizing terms inWord with
  | case1 before pending =>
    have hchunk := hquoted _ (List.mem_singleton_self _)
    rw [List.foldl_nil, flush_reached, termsOfChunks_cons, hchunk]
    simp [termsOfChunks]
  | case2 before pending c cs hcut ih =>
    obtain ⟨hc, hblank⟩ := List.forall_mem_cons.1 hblank
    obtain ⟨hc', hquote⟩ := List.forall_mem_cons.1 hquote
    obtain ⟨hchunk, hquoted⟩ := List.forall_mem_cons.1 hquoted
    -- The pending chunk is complete, and `c` is the first character of the next one.
    obtain ⟨halpha, hends⟩ := Bool.and_eq_true_iff.1 hcut
    rw [List.foldl_cons, step_cut _ _ _ _ _ _ hc hc' halpha hends, ih _ _ hblank hquote hquoted,
      termsOfChunks_cons, hchunk]
    simp
  | case3 before pending c cs hcut ih =>
    obtain ⟨hc, hblank⟩ := List.forall_mem_cons.1 hblank
    obtain ⟨hc', hquote⟩ := List.forall_mem_cons.1 hquote
    rw [List.foldl_cons, step_within _ _ _ _ _ _ hc hc' (by simpa using hcut),
      ih _ _ hblank hquote hquoted]
    simp

theorem flush_foldl_piece {piece : Stretch} (htotal : piece.text.countP isQuote = total)
    (hblank : ∀ c ∈ piece.chars, isBlank c = false)
    (hquote : ∀ c ∈ piece.chars, isQuote c = false) :
    (piece.chars.foldl step
        (reached total (piece.before.countP isQuote) terms word inWord [])).flush
      = reached total (piece.before.countP isQuote) (terms ++ termsOfChunks word piece.chunks) word
          (inWord || ! piece.chars.isEmpty) [] := by
  refine flush_foldl_chunks _ _ _ hblank hquote fun chunk hchunk => ?_
  rw [← isQuoted_eq_quotedAfter htotal hquote]
  exact Stretch.isQuoted_of_mem_chunks hquote hchunk

theorem flush_foldl_run {run : Stretch} (htotal : run.text.countP isQuote = total)
    (hblank : ∀ c ∈ run.chars, isBlank c = false) :
    (run.chars.foldl step (reached total (run.before.countP isQuote) terms word inWord [])).flush
      = reached total ((run.before ++ run.chars).countP isQuote) (terms ++ termsOfRun word run) word
          (inWord || ! run.chars.isEmpty) [] := by
  unfold termsOfRun
  induction run using Stretch.split_induction (p := isQuote) generalizing terms inWord with
  | last run hquote =>
    rw [flush_foldl_piece _ _ _ htotal hblank hquote, List.countP_append,
      Stretch.countP_isQuote_eq_zero hquote, Stretch.splitOn_of_forall hquote]
    simp
  | cut before part c rest after hpart hc ih =>
    let piece : Stretch := ⟨before, part, c :: (rest ++ after)⟩
    have hpieceTotal : piece.text.countP isQuote = total := by
      rwa [← Stretch.text_part] at htotal
    rw [← Stretch.text_rest] at htotal
    obtain ⟨hblankPart, hblank⟩ := List.forall_mem_append.1 hblank
    obtain ⟨hblankQuote, hblankRest⟩ := List.forall_mem_cons.1 hblank
    have hcount : (before ++ (part ++ [c])).countP isQuote = before.countP isQuote + 1 := by
      simp [Stretch.countP_isQuote_eq_zero hpart, hc]
    have hnonempty : (part ++ c :: rest).isEmpty = false := by simp
    -- The quote ends the piece, and the rest begins with one quote more before it.
    have hpiece := flush_foldl_piece terms word inWord hpieceTotal hblankPart hpart
    have hrest := ih (terms ++ termsOfChunks word piece.chunks) true htotal hblankRest
    simp only [hcount] at hrest
    rw [List.foldl_append, List.foldl_cons, step_quote _ hblankQuote hc, hpiece, quote_reached,
      hrest, Stretch.splitOn_append_cons hpart hc]
    simp [piece, hnonempty]

theorem isQuote_of_isBlank {c : Char} (h : isBlank c) : isQuote c = false := by
  cases hc : isQuote c with
  | false => rfl
  | true =>
    rw [of_decide_eq_true hc] at h
    cases h

theorem terms_flush_foldl {s : Stretch} (htotal : s.text.countP isQuote = total) :
    (s.chars.foldl step
        (reached total (s.before.countP isQuote) terms word false [])).flush.terms
      = terms ++ (s.runs.zipIdx word).flatMap fun (run, position) => termsOfRun position run := by
  unfold Stretch.runs
  induction s using Stretch.split_induction (p := isBlank) generalizing terms word with
  | last s hblank =>
    rw [flush_foldl_run _ _ _ htotal hblank, Stretch.splitOn_of_forall hblank, List.filter_cons]
    cases hempty : s.chars.isEmpty with
    | true => simp [reached, termsOfRun_of_isEmpty hempty]
    | false => simp [reached]
  | cut before part c rest after hpart hc ih =>
    let run : Stretch := ⟨before, part, c :: (rest ++ after)⟩
    have hrunTotal : run.text.countP isQuote = total := by
      rwa [← Stretch.text_part] at htotal
    rw [← Stretch.text_rest] at htotal
    have hcount : (before ++ (part ++ [c])).countP isQuote = (before ++ part).countP isQuote := by
      simp [isQuote_of_isBlank hc]
    have hrun := flush_foldl_run terms word false hrunTotal hpart
    have hrest := ih (terms ++ termsOfRun word run) (if ! part.isEmpty then word + 1 else word)
      htotal
    simp only [hcount] at hrest
    rw [List.foldl_append, List.foldl_cons, step_blank _ hc, hrun, endWord_reached,
      Bool.false_or, hrest, Stretch.splitOn_append_cons hpart hc, List.filter_cons]
    -- An empty run has no terms, and its number goes to the next one.
    cases hempty : part.isEmpty with
    | true =>
      have hnone : termsOfRun word run = [] := termsOfRun_of_isEmpty hempty word
      simp [hnone]
    | false => simp [run]

end Splitter

/-! ## Queries -/

/-- The terms of a query are the chunks with an alphanumeric character of the pieces of its runs,
each with the number of its run. -/
theorem terms_eq_split (query : String) :
    terms query
      = (Stretch.whole query.toList).runs.zipIdx.flatMap fun (run, position) =>
          (run.splitOn isQuote).flatMap fun piece =>
            (piece.chunks.filter Stretch.hasAlphanumeric).map fun chunk =>
              ⟨.ofList chunk.chars, chunk.isQuoted, position⟩ := by
  have htotal : (Stretch.whole query.toList).text.countP isQuote
      = query.toList.countP isQuote := by
    simp [Stretch.text, Stretch.whole]
  rw [terms, termsOfChars, Splitter.eq_reached_zero]
  exact Splitter.terms_flush_foldl [] 0 htotal

example : terms "a \"b c\" \"d" =
    [⟨"a", false, 0⟩, ⟨"b", true, 1⟩, ⟨"c", true, 2⟩, ⟨"d", false, 3⟩] :=
  rfl

end Jsni.Query
