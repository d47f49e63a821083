import Mathlib
import Jsni.Proofs.Text.Place
import Jsni.Proofs.Text.Slice

/-!
# Places among the lines of a text

A line and a column say which line of the text is meant and how many of its characters come before.
So they say how many bytes come before, and every offset that falls inside no character has a place
of its own.
-/

namespace Jsni.Text

/-! ## Offsets inside characters -/

/-- The offset falls inside a character. -/
def CutsCharacter (cs : List Char) (offset : Nat) : Prop :=
  ∃ before c after, cs = before ++ c :: after
    ∧ byteLength before < offset ∧ offset < byteLength before + c.utf8Size

theorem CutsCharacter.lt {cs : List Char} {offset : Nat} (h : CutsCharacter cs offset) :
    offset < byteLength cs := by
  obtain ⟨before, c, after, rfl, -, hoffset⟩ := h
  rw [byteLength_append, byteLength_cons]
  omega

theorem not_cutsCharacter_nil (offset : Nat) : ¬ CutsCharacter [] offset := by
  rintro ⟨before, c, after, h, -⟩
  simp at h

theorem not_cutsCharacter_zero (cs : List Char) : ¬ CutsCharacter cs 0 := by
  rintro ⟨before, c, after, -, h, -⟩
  exact Nat.not_lt_zero _ h

theorem cutsCharacter_cons {c : Char} {cs : List Char} {offset : Nat} (h : c.utf8Size ≤ offset) :
    CutsCharacter (c :: cs) offset ↔ CutsCharacter cs (offset - c.utf8Size) := by
  constructor
  · rintro ⟨before, d, after, hcs, hlow, hhigh⟩
    cases before with
    | nil =>
      cases hcs
      rw [byteLength_nil] at hhigh
      omega
    | cons _ before =>
      cases hcs
      rw [byteLength_cons] at hlow hhigh
      exact ⟨before, d, after, rfl, by omega, by omega⟩
  · rintro ⟨before, d, after, rfl, hlow, hhigh⟩
    refine ⟨c :: before, d, after, rfl, ?_, ?_⟩ <;> rw [byteLength_cons] <;> omega

namespace LineColumn

theorem advance_eq_none_iff {here : LineColumn} {cs : List Char} {offset : Nat} :
    here.advance cs offset = none ↔ CutsCharacter cs offset := by
  fun_induction advance here cs offset with
  | case1 here offset => simp [not_cutsCharacter_nil]
  | case2 here c cs => simp [not_cutsCharacter_zero]
  | case3 here c cs offset hzero hsize =>
    refine iff_of_true rfl ⟨[], c, cs, rfl, ?_, ?_⟩ <;> rw [byteLength_nil] <;> omega
  | case4 here offset cs hzero hsize ih => rw [ih, cutsCharacter_cons (by omega)]
  | case5 here offset c cs hzero hsize hline ih => rw [ih, cutsCharacter_cons (by omega)]

/-! ## Lines -/

/-- Going so many bytes on from `here`, where the lines begin, leads to a place. -/
inductive LeadsTo : LineColumn → List (List Char) → Nat → LineColumn → Prop where
  | within (here : LineColumn) (left right : List Char) (below : List (List Char)) :
      LeadsTo here ((left ++ right) :: below) (byteLength left)
        ⟨here.line, here.column + left.length⟩
  | further {here p : LineColumn} (line : List Char) {lines : List (List Char)} {offset : Nat}
      (h : LeadsTo ⟨here.line + 1, 1⟩ lines offset p) :
      LeadsTo here (line :: lines) (byteLength line + 1 + offset) p

theorem LeadsTo.cons {here p : LineColumn} {lines : List (List Char)} {offset : Nat}
    (h : LeadsTo ⟨here.line, here.column + 1⟩ lines offset p) (c : Char) :
    LeadsTo here (lines.modifyHead (c :: ·)) (c.utf8Size + offset) p := by
  cases h with
  | within _ left right below =>
    have hwithin := LeadsTo.within here (c :: left) right below
    rw [List.length_cons, byteLength_cons] at hwithin
    simpa [Nat.add_assoc, Nat.add_comm 1] using hwithin
  | further line h =>
    have hfurther := @LeadsTo.further here _ (c :: line) _ _ h
    rw [byteLength_cons] at hfurther
    simpa [Nat.add_assoc] using hfurther

theorem leadsTo_zero (here : LineColumn) (cs : List Char) :
    LeadsTo here (cs.splitOn '\n') 0 here := by
  obtain ⟨line, lines, hlines⟩ := List.exists_cons_of_ne_nil (List.splitOn_ne_nil '\n' cs)
  rw [hlines]
  exact .within here [] line lines

theorem splitOn_newline_cons (cs : List Char) :
    ('\n' :: cs).splitOn '\n' = [] :: cs.splitOn '\n' := by
  simp [List.splitOn, List.splitOnP_cons_eq_if_modifyHead]

theorem splitOn_cons_of_ne {c : Char} (hc : c ≠ '\n') (cs : List Char) :
    (c :: cs).splitOn '\n' = (cs.splitOn '\n').modifyHead (c :: ·) := by
  simp [List.splitOn, List.splitOnP_cons_eq_if_modifyHead, hc]

theorem leadsTo_of_advance {here p : LineColumn} {cs : List Char} {offset : Nat}
    (h : here.advance cs offset = some p) :
    LeadsTo here (cs.splitOn '\n') (min offset (byteLength cs)) p := by
  fun_induction advance here cs offset with
  | case1 here offset =>
    cases h
    rw [byteLength_nil, Nat.min_zero]
    exact leadsTo_zero p []
  | case2 here c cs =>
    cases h
    rw [Nat.zero_min]
    exact leadsTo_zero p (c :: cs)
  | case3 => cases h
  | case4 here cs offset hzero hsize ih =>
    have hbytes : '\n'.utf8Size = 1 := rfl
    have hmin : min offset (byteLength ('\n' :: cs))
        = byteLength [] + 1 + min (offset - '\n'.utf8Size) (byteLength cs) := by
      rw [byteLength_cons, byteLength_nil, hbytes]
      omega
    rw [hmin, splitOn_newline_cons]
    exact .further [] (ih h)
  | case5 here c cs offset hzero hsize hline ih =>
    have hmin : min offset (byteLength (c :: cs))
        = c.utf8Size + min (offset - c.utf8Size) (byteLength cs) := by
      rw [byteLength_cons]
      omega
    rw [hmin, splitOn_cons_of_ne hline]
    exact (ih h).cons c

/-- The place stands in a text of these lines, and so many bytes come before it: those of the lines
before its own, each with its end, and those of the characters before it in its line. -/
structure StandsIn (lines : List (List Char)) (offset : Nat) (p : LineColumn) : Prop where
  line_pos : 0 < p.line
  column_pos : 0 < p.column
  exists_line : ∃ line, lines[p.line - 1]? = some line ∧ p.column - 1 ≤ line.length
    ∧ offset = ((lines.take (p.line - 1)).map (byteLength · + 1)).sum
        + byteLength (line.take (p.column - 1))

theorem StandsIn.offset_unique {lines : List (List Char)} {p : LineColumn} {i j : Nat}
    (hi : p.StandsIn lines i) (hj : p.StandsIn lines j) : i = j := by
  obtain ⟨line, hline, -, rfl⟩ := hi.exists_line
  obtain ⟨line', hline', -, rfl⟩ := hj.exists_line
  cases hline.symm.trans hline'
  rfl

theorem LeadsTo.exists_line {here p : LineColumn} {lines : List (List Char)} {offset : Nat}
    (h : LeadsTo here lines offset p) (hhere : here.column = 1) :
    ∃ l c line, p = ⟨here.line + l, c + 1⟩ ∧ lines[l]? = some line ∧ c ≤ line.length
      ∧ offset = ((lines.take l).map (byteLength · + 1)).sum + byteLength (line.take c) := by
  induction h with
  | within here left right below =>
    refine ⟨0, left.length, left ++ right, ?_, rfl, ?_, ?_⟩
    · rw [hhere, Nat.add_comm 1]
      rfl
    · simp
    · simp
  | further line h ih =>
    obtain ⟨l, c, line', rfl, hline', hc, rfl⟩ := ih rfl
    refine ⟨l + 1, c, line', ?_, hline', hc, ?_⟩
    · rw [Nat.add_assoc, Nat.add_comm 1]
    · rw [List.take_succ_cons, List.map_cons, List.sum_cons, Nat.add_assoc _ _ (byteLength _)]

end LineColumn

theorem standsIn_of_lineColumn {source : String} {offset : Nat} {p : LineColumn}
    (h : lineColumn source offset = some p) :
    p.StandsIn (source.toList.splitOn '\n') (min offset source.utf8ByteSize) := by
  rw [← byteLength_toList]
  obtain ⟨l, c, line, rfl, hline⟩ := (LineColumn.leadsTo_of_advance h).exists_line rfl
  rw [Nat.add_comm 1 l]
  exact ⟨Nat.succ_pos l, Nat.succ_pos c, line, hline⟩

/-! ## Order -/

instance : LT LineColumn :=
  ⟨fun p q => p.line < q.line ∨ p.line = q.line ∧ p.column < q.column⟩

theorem LineColumn.lt_iff {p q : LineColumn} :
    p < q ↔ p.line < q.line ∨ p.line = q.line ∧ p.column < q.column :=
  Iff.rfl

theorem LineColumn.lt_of_le_of_ne {p q : LineColumn} (hle : p ≤ q) (hne : p ≠ q) : p < q := by
  obtain ⟨pline, pcolumn⟩ := p
  obtain ⟨qline, qcolumn⟩ := q
  simp only [le_iff, lt_iff, ne_eq, LineColumn.mk.injEq] at hle hne ⊢
  omega

/-- An offset has no place just where it falls inside a character. Otherwise its line and column say
which offset it is, and of two offsets in a text the later one has the later place. -/
theorem lineColumn_determines_offset (source : String) :
    (∀ offset, lineColumn source offset = none
        ↔ offset < source.utf8ByteSize ∧ CutsCharacter source.toList offset)
      ∧ (∀ offset p, lineColumn source offset = some p →
        p.StandsIn (source.toList.splitOn '\n') (min offset source.utf8ByteSize))
      ∧ ∀ i j, i < j → j ≤ source.utf8ByteSize → ¬ CutsCharacter source.toList i →
        ¬ CutsCharacter source.toList j →
          ∃ p q, lineColumn source i = some p ∧ lineColumn source j = some q ∧ p < q := by
  have hnone : ∀ offset, lineColumn source offset = none ↔ CutsCharacter source.toList offset :=
    fun offset => LineColumn.advance_eq_none_iff
  refine ⟨?_, fun offset p => standsIn_of_lineColumn, ?_⟩
  · intro offset
    rw [hnone, ← byteLength_toList]
    exact ⟨fun h => ⟨h.lt, h⟩, fun h => h.2⟩
  · intro i j hij hj hi' hj'
    obtain ⟨p, hp⟩ := Option.ne_none_iff_exists'.1 (mt (hnone i).1 hi')
    obtain ⟨q, hq⟩ := Option.ne_none_iff_exists'.1 (mt (hnone j).1 hj')
    refine ⟨p, q, hp, hq, LineColumn.lt_of_le_of_ne (lineColumn_mono hp hq (Nat.le_of_lt hij)) ?_⟩
    rintro rfl
    -- One place is one offset, and both offsets lie in the text.
    have hsame := (standsIn_of_lineColumn hp).offset_unique (standsIn_of_lineColumn hq)
    omega

/-- Two lines with characters of one, two and three bytes. -/
def accentedLines : String :=
  "aé\n€b"

theorem lineColumn_determines_offset_accented :
    lineColumn accentedLines 2 = none ∧ CutsCharacter accentedLines.toList 2
      ∧ lineColumn accentedLines 7 = some ⟨2, 2⟩
      ∧ LineColumn.StandsIn (accentedLines.toList.splitOn '\n')
          (min 7 accentedLines.utf8ByteSize) ⟨2, 2⟩
      ∧ ∃ p q, lineColumn accentedLines 3 = some p ∧ lineColumn accentedLines 7 = some q
          ∧ p < q := by
  obtain ⟨hnone, hplace, horder⟩ := lineColumn_determines_offset accentedLines
  have hinside : lineColumn accentedLines 2 = none := by decide
  have hthree : lineColumn accentedLines 3 = some ⟨1, 3⟩ := by decide
  have hseven : lineColumn accentedLines 7 = some ⟨2, 2⟩ := by decide
  have hsize : 7 ≤ accentedLines.utf8ByteSize := by decide
  have hboundary : ∀ {offset p}, lineColumn accentedLines offset = some p →
      offset < accentedLines.utf8ByteSize → ¬ CutsCharacter accentedLines.toList offset := by
    intro offset p hp hlt hcut
    cases hp.symm.trans ((hnone offset).2 ⟨hlt, hcut⟩)
  exact ⟨hinside, ((hnone 2).1 hinside).2, hseven, hplace 7 _ hseven,
    horder 3 7 (by decide) hsize (hboundary hthree (by decide)) (hboundary hseven (by decide))⟩

end Jsni.Text
