import Jsni.Text.Position

/-!
# The order of places

Places are ordered as one reads, by line and then by column. A later offset has no earlier place.
-/

namespace Jsni.Text

namespace LineColumn

instance : LE LineColumn :=
  ⟨fun p q => p.line < q.line ∨ p.line = q.line ∧ p.column ≤ q.column⟩

theorem le_iff {p q : LineColumn} :
    p ≤ q ↔ p.line < q.line ∨ p.line = q.line ∧ p.column ≤ q.column :=
  Iff.rfl

theorem le_of_advance {here p : LineColumn} {cs : List Char} {offset : Nat}
    (h : here.advance cs offset = some p) : here ≤ p := by
  fun_induction advance here cs offset with
  | case1 here offset =>
    cases h
    exact .inr ⟨rfl, Nat.le_refl _⟩
  | case2 here c cs =>
    cases h
    exact .inr ⟨rfl, Nat.le_refl _⟩
  | case3 => cases h
  | case4 here offset cs hzero hsize ih =>
    have hle := le_iff.1 (ih h)
    simp only [le_iff] at hle ⊢
    omega
  | case5 here offset c cs hzero hsize hline ih =>
    have hle := le_iff.1 (ih h)
    simp only [le_iff] at hle ⊢
    omega

theorem advance_mono {here p q : LineColumn} {cs : List Char} {i j : Nat}
    (hi : here.advance cs i = some p) (hj : here.advance cs j = some q) (hij : i ≤ j) : p ≤ q := by
  fun_induction advance here cs i generalizing j with
  | case1 here i =>
    cases hi
    exact le_of_advance hj
  | case2 here c cs =>
    cases hi
    exact le_of_advance hj
  | case3 => cases hi
  | case4 here i cs hzero hsize ih =>
    -- The later offset lies behind the first character as well.
    rw [advance, if_neg (by omega), if_neg (by omega), if_pos rfl] at hj
    exact ih hi hj (by omega)
  | case5 here i c cs hzero hsize hline ih =>
    rw [advance, if_neg (by omega), if_neg (by omega), if_neg hline] at hj
    exact ih hi hj (by omega)

end LineColumn

theorem lineColumn_mono {source : String} {i j : Nat} {p q : LineColumn}
    (hi : lineColumn source i = some p) (hj : lineColumn source j = some q) (hij : i ≤ j) :
    p ≤ q :=
  LineColumn.advance_mono hi hj hij

end Jsni.Text
