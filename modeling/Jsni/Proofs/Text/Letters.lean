import Jsni.Text.Blank
import Jsni.Text.Letters

/-!
# Letters and white space

White space is neither alphabetic nor numeric.
-/

namespace Jsni.Text

theorem isBlank_of_isAlphanum {c : Char} (h : c.isAlphanum) : isBlank c = false := by
  delta Char.isAlphanum Char.isAlpha Char.isUpper Char.isLower Char.isDigit at h
  simp only [Bool.or_eq_true, Bool.and_eq_true, decide_eq_true_eq, UInt32.le_iff_toNat_le,
    ge_iff_le] at h
  have hUpper : 'A'.val.toNat = 65 ∧ 'Z'.val.toNat = 90 := ⟨rfl, rfl⟩
  have hLower : 'a'.val.toNat = 97 ∧ 'z'.val.toNat = 122 := ⟨rfl, rfl⟩
  have hDigit : '0'.val.toNat = 48 ∧ '9'.val.toNat = 57 := ⟨rfl, rfl⟩
  simp only [isBlank, Char.toNat, Bool.or_eq_false_iff, Bool.and_eq_false_iff,
    decide_eq_false_iff_not, beq_eq_false_iff_ne]
  omega

/-- The white space characters, as ranges. -/
def blankRanges : List (Nat × Nat) :=
  [(0x09, 0x0D), (0x20, 0x20), (0x85, 0x85), (0xA0, 0xA0), (0x1680, 0x1680), (0x2000, 0x200A),
    (0x2028, 0x2029), (0x202F, 0x202F), (0x205F, 0x205F), (0x3000, 0x3000)]

theorem exists_mem_blankRanges {c : Char} (h : isBlank c) :
    ∃ blank ∈ blankRanges, blank.1 ≤ c.toNat ∧ c.toNat ≤ blank.2 := by
  simp only [isBlank, Bool.or_eq_true, Bool.and_eq_true, decide_eq_true_eq, beq_iff_eq] at h
  simp only [blankRanges, List.mem_cons, List.not_mem_nil, or_false, exists_eq_or_imp,
    exists_eq_left]
  omega

theorem RangeTable.covers_eq_false_of_isBlank {table : RangeTable}
    (htable : ∀ range ∈ table.toList, ∀ blank ∈ blankRanges, range.2 < blank.1 ∨ blank.2 < range.1)
    {c : Char} (hc : isBlank c) : table.covers c = false := by
  obtain ⟨blank, hblank, hlow, hhigh⟩ := exists_mem_blankRanges hc
  simp only [covers, Array.any_eq_false]
  intro i hi
  have hapart := htable table[i] (by simp) blank hblank
  simp only [Bool.and_eq_true, decide_eq_true_eq]
  omega

theorem covers_alphabeticRanges_of_isBlank {c : Char} (hc : isBlank c) :
    alphabeticRanges.covers c = false :=
  RangeTable.covers_eq_false_of_isBlank (by decide +kernel) hc

theorem covers_numericRanges_of_isBlank {c : Char} (hc : isBlank c) :
    numericRanges.covers c = false :=
  RangeTable.covers_eq_false_of_isBlank (by decide +kernel) hc

theorem isAlphanumeric_of_isBlank {c : Char} (hc : isBlank c) : isAlphanumeric c = false := by
  have hascii : c.isAlphanum = false := by
    cases h : c.isAlphanum with
    | false => rfl
    | true =>
      rw [isBlank_of_isAlphanum h] at hc
      cases hc
  obtain ⟨halpha, hdigit⟩ := Bool.or_eq_false_iff.1 hascii
  rw [isAlphanumeric, isAlphabetic, isNumeric, halpha, hdigit,
    covers_alphabeticRanges_of_isBlank hc, covers_numericRanges_of_isBlank hc]
  rfl

end Jsni.Text
