import Jsni.Text.Position

/-!
# Slices

`slice?` takes the part of a text at a range of bytes, if the range lies within the text and cuts
through no character. `lineColumn` has an answer wherever a slice begins.
-/

namespace Jsni.Text

theorem utf8ByteSize_ofList (cs : List Char) : (String.ofList cs).utf8ByteSize = byteLength cs := by
  induction cs with
  | nil => rfl
  | cons c cs ih =>
    rw [← List.singleton_append, String.ofList_append, String.utf8ByteSize_append, ih]
    simp

theorem byteLength_toList (s : String) : byteLength s.toList = s.utf8ByteSize := by
  rw [← utf8ByteSize_ofList, String.ofList_toList]

theorem byteLength_pos {cs : List Char} (h : cs ≠ []) : 0 < byteLength cs := by
  cases cs with
  | nil => exact absurd rfl h
  | cons c cs =>
    have hc := c.utf8Size_pos
    rw [byteLength_cons]
    omega

/-- The first `n` bytes of a text and the rest, unless the text is shorter or the cut falls inside
a character. -/
def splitBytes (n : Nat) : List Char → Option (List Char × List Char)
  | []      => if n = 0 then some ([], []) else none
  | c :: cs =>
    if n = 0 then some ([], c :: cs)
    else if n < c.utf8Size then none
    else (splitBytes (n - c.utf8Size) cs).map fun (before, rest) => (c :: before, rest)

/-- The part of a text that has the given offset and length. -/
def slice? (s : String) (offset length : Nat) : Option String := do
  let (_, cs) ← splitBytes offset s.toList
  let (part, _) ← splitBytes length cs
  return .ofList part

theorem splitBytes_append (before rest : List Char) :
    splitBytes (byteLength before) (before ++ rest) = some (before, rest) := by
  induction before with
  | nil => cases rest <;> simp [splitBytes]
  | cons c before ih =>
    -- No split ends within `c`, since all of its bytes are counted.
    have hpos := c.utf8Size_pos
    rw [List.cons_append, splitBytes, if_neg, if_neg]
    · simp [ih]
    · simp
    · simp
      omega

theorem append_of_splitBytes {n : Nat} {cs before rest : List Char}
    (h : splitBytes n cs = some (before, rest)) : cs = before ++ rest ∧ byteLength before = n := by
  fun_induction splitBytes n cs generalizing before with
  | case1 =>
    cases h
    exact ⟨rfl, rfl⟩
  | case2 n hn => cases h
  | case3 c cs =>
    cases h
    exact ⟨rfl, rfl⟩
  | case4 n c cs hn hsize => cases h
  | case5 n c cs hn hsize ih =>
    obtain ⟨⟨before', rest'⟩, hsplit, heq⟩ := Option.map_eq_some_iff.1 h
    cases heq
    obtain ⟨rfl, hbefore⟩ := ih hsplit
    refine ⟨rfl, ?_⟩
    rw [byteLength_cons, hbefore]
    omega

theorem splitBytes_eq_some_iff {n : Nat} {cs before rest : List Char} :
    splitBytes n cs = some (before, rest) ↔ cs = before ++ rest ∧ byteLength before = n := by
  constructor
  · exact append_of_splitBytes
  · rintro ⟨rfl, rfl⟩
    exact splitBytes_append before rest

theorem slice?_eq_some_iff {s part : String} {offset length : Nat} :
    slice? s offset length = some part
      ↔ ∃ before after, s.toList = before ++ (part.toList ++ after) ∧ byteLength before = offset
        ∧ byteLength part.toList = length := by
  constructor
  · intro h
    obtain ⟨⟨before, cs⟩, hbefore, h⟩ := Option.bind_eq_some_iff.1 h
    obtain ⟨⟨mid, after⟩, hmid, h⟩ := Option.bind_eq_some_iff.1 h
    cases h
    obtain ⟨hs, hoffset⟩ := splitBytes_eq_some_iff.1 hbefore
    obtain ⟨rfl, hlength⟩ := splitBytes_eq_some_iff.1 hmid
    exact ⟨before, after, by simpa using hs, hoffset, by simpa using hlength⟩
  · rintro ⟨before, after, hs, rfl, rfl⟩
    simp [slice?, hs, splitBytes_append]

/-- The texts that begin at a byte of a text. -/
theorem slice?_eq_some_iff_of_splitBytes {text part : String} {offset length : Nat}
    {before rest : List Char} (h : splitBytes offset text.toList = some (before, rest)) :
    slice? text offset length = some part
      ↔ part.toList <+: rest ∧ byteLength part.toList = length := by
  rw [slice?_eq_some_iff]
  constructor
  · rintro ⟨before', after, htext, hoffset, hlength⟩
    -- The text can be cut at this byte in one way only.
    rw [splitBytes_eq_some_iff.2 ⟨htext, hoffset⟩] at h
    cases h
    exact ⟨List.prefix_append .., hlength⟩
  · rintro ⟨⟨after, rfl⟩, hlength⟩
    obtain ⟨htext, hoffset⟩ := splitBytes_eq_some_iff.1 h
    exact ⟨before, after, htext, hoffset, hlength⟩

/-- A slice of a slice. -/
theorem slice?_trans {s mid part : String} {offset length offset' length' : Nat}
    (hmid : slice? s offset length = some mid) (hpart : slice? mid offset' length' = some part) :
    slice? s (offset + offset') length' = some part := by
  obtain ⟨before, after, hs, rfl, -⟩ := slice?_eq_some_iff.1 hmid
  obtain ⟨before', after', hm, rfl, hlength⟩ := slice?_eq_some_iff.1 hpart
  refine slice?_eq_some_iff.2 ⟨before ++ before', after' ++ after, ?_, by simp, hlength⟩
  simp [hs, hm]

theorem add_le_of_slice? {s part : String} {offset length : Nat}
    (h : slice? s offset length = some part) : offset + length ≤ s.utf8ByteSize := by
  obtain ⟨before, after, hs, rfl, rfl⟩ := slice?_eq_some_iff.1 h
  rw [← byteLength_toList, hs]
  simp

/-! ## Places -/

theorem LineColumn.advance_append (here : LineColumn) (before rest : List Char) :
    (here.advance (before ++ rest) (byteLength before)).isSome := by
  induction before generalizing here with
  | nil => cases rest <;> simp [advance]
  | cons c before ih =>
    have hpos := c.utf8Size_pos
    rw [List.cons_append, advance, if_neg, if_neg]
    · split <;> simpa using ih _
    · simp
    · simp
      omega

theorem lineColumn_isSome_of_slice? {s part : String} {offset length : Nat}
    (h : slice? s offset length = some part) : (lineColumn s offset).isSome := by
  obtain ⟨before, after, hs, rfl, -⟩ := slice?_eq_some_iff.1 h
  rw [lineColumn, hs]
  exact LineColumn.advance_append _ before _

end Jsni.Text
