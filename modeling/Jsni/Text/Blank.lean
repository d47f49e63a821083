/-!
# White space

White space is the Unicode property `White_Space`. `trim` drops it at both ends of a text and
`words` splits a text at it.
-/

namespace Jsni.Text

def isBlank (c : Char) : Bool :=
  let n := c.toNat
  (0x09 ≤ n && n ≤ 0x0D) || n == 0x20 || n == 0x85 || n == 0xA0 || n == 0x1680
    || (0x2000 ≤ n && n ≤ 0x200A) || n == 0x2028 || n == 0x2029 || n == 0x202F || n == 0x205F
    || n == 0x3000

def trimEnd (cs : List Char) : List Char :=
  (cs.reverse.dropWhile isBlank).reverse

def trim (cs : List Char) : List Char :=
  trimEnd (cs.dropWhile isBlank)

theorem trimEnd_length_le (cs : List Char) : (trimEnd cs).length ≤ cs.length := by
  simpa [trimEnd] using List.Sublist.length_le (List.dropWhile_sublist isBlank (l := cs.reverse))

theorem trim_length_le (cs : List Char) : (trim cs).length ≤ cs.length :=
  Nat.le_trans (trimEnd_length_le _) (List.dropWhile_sublist isBlank).length_le

/-- The maximal runs of characters that are not white space, in order. -/
def words (cs : List Char) : List (List Char) :=
  match _h : cs.dropWhile isBlank with
  | [] => []
  | c :: rest =>
    (c :: rest.takeWhile (! isBlank ·)) :: words (rest.dropWhile (! isBlank ·))
termination_by cs.length
decreasing_by
  have h₁ := (List.dropWhile_sublist isBlank (l := cs)).length_le
  have h₂ := (List.dropWhile_sublist (! isBlank ·) (l := rest)).length_le
  simp only [_h, List.length_cons] at h₁
  omega

/-- The text without its white space. -/
def squeeze (cs : List Char) : List Char :=
  cs.filter (! isBlank ·)

end Jsni.Text
