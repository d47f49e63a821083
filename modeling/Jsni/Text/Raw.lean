/-!
# Raw texts

Arguments and paths come from the system as bytes. Most are the encoding of a text, but any bytes
can be displayed: where they break the encoding, a replacement character stands for them.
-/

namespace Jsni

structure RawText where
  bytes : List UInt8
deriving DecidableEq, Repr, Inhabited

namespace RawText

def ofString (s : String) : RawText :=
  ⟨s.toByteArray.data.toList⟩

instance : Coe String RawText :=
  ⟨ofString⟩

/-- The text that the bytes are the encoding of, if they are one. -/
def text? (t : RawText) : Option String :=
  String.fromUTF8? ⟨t.bytes.toArray⟩

theorem text?_ofString (s : String) : (ofString s).text? = some s := by
  rw [text?, ofString, Array.toArray_toList]
  exact dif_pos s.isValidUTF8

/-! ## Display -/

/-- The ranges of the bytes that follow the first byte of a character, one for each. -/
def followers (first : UInt8) : List (UInt8 × UInt8) :=
  let follower : UInt8 × UInt8 := (0x80, 0xBF)
  if first < 0xC2 ∨ 0xF4 < first then []
  else if first < 0xE0 then [follower]
  else if first = 0xE0 then [(0xA0, 0xBF), follower]
  else if first = 0xED then [(0x80, 0x9F), follower]
  else if first < 0xF0 then [follower, follower]
  else if first = 0xF0 then [(0x90, 0xBF), follower, follower]
  else if first = 0xF4 then [(0x80, 0x8F), follower, follower]
  else [follower, follower, follower]

/-- How many of the bytes are in the ranges, one after the other. -/
def inRanges : List (UInt8 × UInt8) → List UInt8 → Nat
  | (low, high) :: ranges, b :: bs => if low ≤ b ∧ b ≤ high then inRanges ranges bs + 1 else 0
  | _,                     _       => 0

/-- The characters that the bytes encode. A character that breaks off counts as one replacement
character, and so does each byte that begins none. -/
def displayChars (bs : List UInt8) : List Char :=
  match bs with
  | []      => []
  | b :: bs =>
    match ByteArray.utf8DecodeChar? ⟨(b :: bs).toArray⟩ 0 with
    | some c => c :: displayChars (bs.drop (c.utf8Size - 1))
    | none   => '\uFFFD' :: displayChars (bs.drop (inRanges (followers b) bs))
termination_by bs.length
decreasing_by
  all_goals simp only [List.length_drop, List.length_cons]
  all_goals omega

def display (t : RawText) : String :=
  .ofList (displayChars t.bytes)

theorem displayChars_utf8Encode (cs : List Char) :
    displayChars cs.utf8Encode.data.toList = cs := by
  induction cs with
  | nil => rw [displayChars.eq_def]; rfl
  | cons c cs ih =>
    have hbytes : (c :: cs).utf8Encode.data.toList
        = String.utf8EncodeChar c ++ cs.utf8Encode.data.toList := by
      simp [List.utf8Encode]
    have hdecode : ByteArray.utf8DecodeChar? ⟨(c :: cs).utf8Encode.data.toList.toArray⟩ 0
        = some c := by
      rw [Array.toArray_toList]
      exact List.utf8DecodeChar?_utf8Encode_cons
    have hlength := String.length_utf8EncodeChar c
    rw [hbytes] at hdecode ⊢
    cases hfirst : String.utf8EncodeChar c with
    | nil => simp [hfirst, Nat.ne_of_lt c.utf8Size_pos] at hlength
    | cons b bs =>
      rw [hfirst, List.length_cons] at hlength
      rw [hfirst, List.cons_append] at hdecode
      rw [List.cons_append, displayChars, hdecode]
      simp only [← hlength, Nat.add_sub_cancel, List.drop_left, ih]

theorem display_ofString (s : String) : (ofString s).display = s := by
  have hs : s.toByteArray = s.toList.utf8Encode := by
    rw [← String.toByteArray_ofList, String.ofList_toList]
  rw [display, ofString, hs, displayChars_utf8Encode, String.ofList_toList]

end RawText

/-- Where a file is. -/
abbrev Path := RawText

end Jsni
