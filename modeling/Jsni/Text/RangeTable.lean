/-!
# Tables of character ranges
-/

namespace Jsni.Text

/-- Inclusive ranges of code points. -/
abbrev RangeTable := Array (Nat × Nat)

def RangeTable.covers (table : RangeTable) (c : Char) : Bool :=
  table.any fun range => range.1 ≤ c.toNat && c.toNat ≤ range.2

theorem RangeTable.covers_eq_false {table : RangeTable} {bound : Nat}
    (htable : ∀ range ∈ table.toList, bound ≤ range.1) {c : Char} (hc : c.toNat < bound) :
    table.covers c = false := by
  simp only [covers, Array.any_eq_false]
  intro i hi
  have hle := htable table[i] (by simp)
  simp only [Bool.and_eq_true, decide_eq_true_eq]
  omega

end Jsni.Text
