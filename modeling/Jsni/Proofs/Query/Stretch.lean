import Jsni.Query.Basic
import Mathlib.Data.List.TakeWhile

/-!
# Cutting a query

A query is cut three times: at white space into runs, at quotes into pieces, and behind wildcards
into chunks. Each stretch that comes of it knows what stands before and after it in the query, and
so whether it is quoted.
-/

namespace Jsni.Query

open Text

/-! ## Stretches -/

/-- A stretch of a text, with all that stands before it and after it. -/
structure Stretch where
  before : List Char
  chars : List Char
  after : List Char
deriving DecidableEq, Repr

namespace Stretch

/-- The whole text as a stretch of itself. -/
def whole (cs : List Char) : Stretch :=
  ⟨[], cs, []⟩

/-- The text that it is a stretch of. -/
def text (s : Stretch) : List Char :=
  s.before ++ (s.chars ++ s.after)

theorem text_part (before part rest after : List Char) (c : Char) :
    text ⟨before, part, c :: (rest ++ after)⟩ = text ⟨before, part ++ c :: rest, after⟩ := by
  simp [text]

theorem text_rest (before part rest after : List Char) (c : Char) :
    text ⟨before ++ (part ++ [c]), rest, after⟩ = text ⟨before, part ++ c :: rest, after⟩ := by
  simp [text]

/-- The stretches between the separators, empty ones too. -/
def splitOn (p : Char → Bool) (s : Stretch) : List Stretch :=
  match _h : s.chars.dropWhile (! p ·) with
  | []        => [s]
  | c :: rest =>
    let part := s.chars.takeWhile (! p ·)
    ⟨s.before, part, c :: (rest ++ s.after)⟩
      :: splitOn p ⟨s.before ++ (part ++ [c]), rest, s.after⟩
termination_by s.chars.length
decreasing_by
  have hle := (List.dropWhile_sublist (! p ·) (l := s.chars)).length_le
  simp only [_h, List.length_cons] at hle
  exact hle

variable {p : Char → Bool}

theorem splitOn_of_forall {s : Stretch} (h : ∀ c ∈ s.chars, p c = false) : s.splitOn p = [s] := by
  have hdrop : s.chars.dropWhile (! p ·) = [] :=
    List.dropWhile_eq_nil_iff.2 fun c hc => by simp [h c hc]
  rw [splitOn]
  split
  · rfl
  · simp_all

theorem splitOn_append_cons {before part rest after : List Char} {c : Char}
    (hpart : ∀ d ∈ part, p d = false) (hc : p c) :
    splitOn p ⟨before, part ++ c :: rest, after⟩
      = ⟨before, part, c :: (rest ++ after)⟩
        :: splitOn p ⟨before ++ (part ++ [c]), rest, after⟩ := by
  have hnot : ∀ d ∈ part, (! p d) = true := fun d hd => by simp [hpart d hd]
  have hdrop : (part ++ c :: rest).dropWhile (! p ·) = c :: rest := by
    rw [List.dropWhile_append_of_pos hnot, List.dropWhile_cons_of_neg (by simp [hc])]
  have htake : (part ++ c :: rest).takeWhile (! p ·) = part := by
    rw [List.takeWhile_append_of_pos hnot, List.takeWhile_cons_of_neg (by simp [hc]),
      List.append_nil]
  rw [splitOn]
  split
  · simp_all
  · rename_i heq
    cases heq.symm.trans hdrop
    simp only [htake]

/-- Induction over the stretches between the separators, from the last one back to the first. -/
theorem split_induction {motive : Stretch → Prop}
    (last : ∀ s : Stretch, (∀ c ∈ s.chars, p c = false) → motive s)
    (cut : ∀ before part c rest after, (∀ d ∈ part, p d = false) → p c →
      motive ⟨before ++ (part ++ [c]), rest, after⟩ → motive ⟨before, part ++ c :: rest, after⟩)
    (s : Stretch) : motive s := by
  fun_induction splitOn p s with
  | case1 s hnone =>
    exact last s fun c hc => by simpa using List.dropWhile_eq_nil_iff.1 hnone c hc
  | case2 s c rest hsome part ih =>
    have hchars : part ++ c :: rest = s.chars := hsome ▸ List.takeWhile_append_dropWhile
    have hc : p c := by
      have hhead := List.head?_dropWhile_not (! p ·) s.chars
      rw [hsome] at hhead
      simpa using hhead
    have hmotive := cut s.before part c rest s.after
      (fun d hd => by simpa using List.mem_takeWhile_imp hd) hc ih
    rwa [hchars] at hmotive

/-- The runs between white space. -/
def runs (s : Stretch) : List Stretch :=
  (s.splitOn isBlank).filter (! ·.chars.isEmpty)

end Stretch

/-! ## Wildcards -/

/-- Whether a wildcard has an alphanumeric character somewhere before it. -/
def endsTerm (chunk : List Char) : Bool :=
  (chunk.dropWhile (! isAlphanumeric ·)).any isWildcard

theorem isAlphanumeric_of_ascii {c : Char} (hc : c.toNat < 0x80) :
    isAlphanumeric c = c.isAlphanum := by
  rw [isAlphanumeric, isAlphabetic_of_ascii hc, isNumeric_of_ascii hc]
  rfl

theorem isAlphanumeric_of_isWildcard {c : Char} (h : isWildcard c) : isAlphanumeric c = false := by
  simp only [isWildcard, Bool.or_eq_true, decide_eq_true_eq] at h
  obtain rfl | rfl := h
  · exact isAlphanumeric_of_ascii (by decide)
  · exact isAlphanumeric_of_ascii (by decide)

theorem isWildcard_of_isAlphanumeric {c : Char} (h : isAlphanumeric c) : isWildcard c = false := by
  cases hc : isWildcard c with
  | false => rfl
  | true =>
    rw [isAlphanumeric_of_isWildcard hc] at h
    cases h

theorem isEmpty_dropWhile_not (p : Char → Bool) (cs : List Char) :
    (cs.dropWhile (! p ·)).isEmpty = ! cs.any p := by
  rw [Bool.eq_iff_iff, List.isEmpty_iff, List.dropWhile_eq_nil_iff]
  simp

theorem endsTerm_iff {chunk : List Char} :
    endsTerm chunk
      ↔ ∃ x w y, chunk = x ++ w :: y ∧ isWildcard w ∧ ∃ c ∈ x, isAlphanumeric c := by
  constructor
  · intro h
    obtain ⟨w, hmem, hw⟩ := List.any_eq_true.1 h
    have hchunk := List.takeWhile_append_dropWhile (p := (! isAlphanumeric ·)) (l := chunk)
    have hhead := List.head?_dropWhile_not (! isAlphanumeric ·) chunk
    cases hdrop : chunk.dropWhile (! isAlphanumeric ·) with
    | nil =>
      rw [hdrop] at hmem
      cases hmem
    | cons a rest =>
      rw [hdrop] at hmem hchunk hhead
      have ha : isAlphanumeric a := by simpa using hhead
      -- The first alphanumeric character is no wildcard, so `w` stands behind it.
      rcases List.mem_cons.1 hmem with rfl | hmem
      · cases (isWildcard_of_isAlphanumeric ha).symm.trans hw
      · obtain ⟨x, y, rfl⟩ := List.append_of_mem hmem
        refine ⟨chunk.takeWhile (! isAlphanumeric ·) ++ a :: x, w, y, ?_, hw, a, by simp, ha⟩
        rw [List.append_assoc, List.cons_append, hchunk]
  · rintro ⟨x, w, y, rfl, hw, c, hc, halpha⟩
    have hany : x.any isAlphanumeric := List.any_eq_true.2 ⟨c, hc, halpha⟩
    rw [endsTerm, List.dropWhile_append, isEmpty_dropWhile_not, hany]
    simp [hw]

theorem any_isAlphanumeric_of_endsTerm {chunk : List Char} (h : endsTerm chunk) :
    chunk.any isAlphanumeric := by
  obtain ⟨x, w, y, rfl, -, c, hc, halpha⟩ := endsTerm_iff.1 h
  exact List.any_eq_true.2 ⟨c, List.mem_append_left _ hc, halpha⟩

@[simp] theorem endsTerm_nil : endsTerm [] = false := rfl

@[simp] theorem endsTerm_singleton (c : Char) : endsTerm [c] = false := by
  cases hc : isAlphanumeric c with
  | false => simp [endsTerm, hc]
  | true => simp [endsTerm, hc, isWildcard_of_isAlphanumeric hc]

theorem endsTerm_concat (chunk : List Char) (c : Char) :
    endsTerm (chunk ++ [c]) = (endsTerm chunk || (chunk.any isAlphanumeric && isWildcard c)) := by
  unfold endsTerm
  rw [List.dropWhile_append, isEmpty_dropWhile_not]
  cases hany : chunk.any isAlphanumeric with
  | true => simp
  | false =>
    have hempty : (chunk.dropWhile (! isAlphanumeric ·)).isEmpty := by
      rw [isEmpty_dropWhile_not, hany]
      rfl
    rw [List.isEmpty_iff.1 hempty]
    exact endsTerm_singleton c

/-! ## Chunks -/

/-- The chunks of `part ++ cs`, where `part` is the beginning of the first one. A chunk ends right
before an alphanumeric character that such a wildcard precedes in the chunk. -/
def chunksFrom (after : List Char) (before part : List Char) : List Char → List Stretch
  | []      => [⟨before, part, after⟩]
  | c :: cs =>
    if isAlphanumeric c && endsTerm part then
      ⟨before, part, c :: (cs ++ after)⟩ :: chunksFrom after (before ++ part) [c] cs
    else chunksFrom after before (part ++ [c]) cs

theorem exists_of_mem_chunksFrom {after before part cs : List Char} {chunk : Stretch}
    (h : chunk ∈ chunksFrom after before part cs) :
    ∃ x y, part ++ cs = x ++ (chunk.chars ++ y) ∧ chunk.before = before ++ x
      ∧ chunk.after = y ++ after := by
  fun_induction chunksFrom after before part cs with
  | case1 before part =>
    obtain rfl := List.mem_singleton.1 h
    exact ⟨[], [], by simp, by simp, by simp⟩
  | case2 before part c cs hcut ih =>
    rcases List.mem_cons.1 h with rfl | h
    · exact ⟨[], c :: cs, by simp, by simp, by simp⟩
    · obtain ⟨x, y, hchars, hbefore, hafter⟩ := ih h
      exact ⟨part ++ x, y, by simpa using hchars, by simpa using hbefore, hafter⟩
  | case3 before part c cs hcut ih =>
    obtain ⟨x, y, hchars, hbefore, hafter⟩ := ih h
    exact ⟨x, y, by simpa using hchars, hbefore, hafter⟩

namespace Stretch

def chunks (s : Stretch) : List Stretch :=
  chunksFrom s.after s.before [] s.chars

def hasAlphanumeric (s : Stretch) : Bool :=
  s.chars.any isAlphanumeric

/-! ## Quotes -/

/-- An odd number of quotes stands before and at least one after. -/
def isQuoted (s : Stretch) : Bool :=
  s.before.countP isQuote % 2 = 1 && s.after.any isQuote

theorem countP_isQuote_eq_zero {cs : List Char} (h : ∀ c ∈ cs, isQuote c = false) :
    cs.countP isQuote = 0 :=
  List.countP_eq_zero.2 fun c hc => by simp [h c hc]

theorem isQuoted_iff {s : Stretch} (h : ∀ c ∈ s.chars, isQuote c = false) :
    s.isQuoted
      ↔ s.before.countP isQuote % 2 = 1 ∧ s.before.countP isQuote < s.text.countP isQuote := by
  have hafter : s.after.any isQuote ↔ 0 < s.after.countP isQuote := by
    rw [List.any_eq_true, List.countP_pos_iff]
  rw [isQuoted, Bool.and_eq_true, hafter, decide_eq_true_eq, text, List.countP_append,
    List.countP_append, countP_isQuote_eq_zero h]
  omega

/-- Without quotes in a stretch, its chunks are quoted as it is. -/
theorem isQuoted_of_mem_chunks {s chunk : Stretch} (h : ∀ c ∈ s.chars, isQuote c = false)
    (hchunk : chunk ∈ s.chunks) : chunk.isQuoted = s.isQuoted := by
  obtain ⟨x, y, hchars, hbefore, hafter⟩ := exists_of_mem_chunksFrom hchunk
  rw [List.nil_append] at hchars
  have hx : x.countP isQuote = 0 :=
    countP_isQuote_eq_zero fun c hc => h c (by simp [hchars, hc])
  have hy : y.any isQuote = false :=
    List.any_eq_false.2 fun c hc => by simp [h c (by simp [hchars, hc])]
  simp [isQuoted, hbefore, hafter, hx, hy]

end Stretch

end Jsni.Query
