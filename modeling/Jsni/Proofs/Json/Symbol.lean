import Jsni.Json.Basic
import Jsni.Json.Symbol

/-!
# The symbols of written values

Marks, strings, `null` and numbers are read off the front of a text as they were written. A string
ends at its quote whatever follows; a number ends only where what follows does not go on with it.
-/

namespace Jsni.Json

/-- A symbol at the front of a text is the first of its symbols. -/
theorem symbols_of_readSymbol {c : Char} {cs rest : List Char} {s : Symbol}
    (hspace : isSpace c = false) (h : readSymbol c cs = (s, some rest)) :
    symbols (c :: cs) = s :: symbols rest := by
  rw [symbols]
  split
  · simp_all
  · split <;> simp_all

theorem symbols_mark {c : Char} (hc : isPunctuation c) (cs : List Char) :
    symbols (c :: cs) = .mark c :: symbols cs := by
  have hspace : isSpace c = false := by
    simp only [isPunctuation, Bool.or_eq_true, decide_eq_true_eq] at hc
    rcases hc with ((((rfl | rfl) | rfl) | rfl) | rfl) | rfl <;> rfl
  exact symbols_of_readSymbol hspace (if_pos hc)

theorem symbols_null (rest : List Char) :
    symbols ('n' :: 'u' :: 'l' :: 'l' :: rest) = .scalar .null :: symbols rest :=
  symbols_of_readSymbol rfl rfl

/-! ## Strings -/

theorem hexValue?_hexDigit : ∀ n < 16, hexValue? (hexDigit n) = some n := by
  decide

theorem readHex_hexDigit {n : Nat} (hn : n < 0x20) (cs : List Char) :
    readHex ('0' :: '0' :: hexDigit (n / 16) :: hexDigit (n % 16) :: cs) = .ok (n, cs) := by
  have hhigh := hexValue?_hexDigit (n / 16) (by omega)
  have hlow := hexValue?_hexDigit (n % 16) (by omega)
  have hzero : hexValue? '0' = some 0 := rfl
  simp only [readHex, hhigh, hlow, hzero]
  congr 2
  omega

/-- An escape that stands for a character, whether one wants to know the character or not. -/
def IsEscapeOf (e : List Char) (c : Char) : Prop :=
  ∀ cs, readEscape (e ++ cs) = .ok (c, cs) ∧ passEscape (e ++ cs) = .ok cs

theorem isEscapeOf_hexDigit {c : Char} (hc : c.toNat < 0x20) :
    IsEscapeOf ['u', '0', '0', hexDigit (c.toNat / 16), hexDigit (c.toNat % 16)] c := by
  intro cs
  have hread := readHex_hexDigit hc cs
  have hunicode : readUnicodeEscape
      ('0' :: '0' :: hexDigit (c.toNat / 16) :: hexDigit (c.toNat % 16) :: cs) = .ok (c, cs) := by
    rw [readUnicodeEscape, hread]
    simp only [bind, Except.bind]
    rw [if_neg (by omega), if_neg (by omega), Char.ofNat_toNat]
    rfl
  have hpass : (readHex
      ('0' :: '0' :: hexDigit (c.toNat / 16) :: hexDigit (c.toNat % 16) :: cs)).map (·.2)
        = .ok cs := by
    rw [hread]
    rfl
  exact ⟨hunicode, hpass⟩

/-- A character in a string is written as it is or by an escape that stands for it. -/
theorem escape_cases (c : Char) :
    (escape c = [c] ∧ c ≠ '"' ∧ c ≠ '\\' ∧ ¬ c.toNat < 0x20)
      ∨ ∃ e, escape c = '\\' :: e ∧ IsEscapeOf e c := by
  unfold escape
  split
  · exact .inr ⟨['"'], rfl, fun _ => ⟨rfl, rfl⟩⟩
  · exact .inr ⟨['\\'], rfl, fun _ => ⟨rfl, rfl⟩⟩
  · exact .inr ⟨['n'], rfl, fun _ => ⟨rfl, rfl⟩⟩
  · exact .inr ⟨['r'], rfl, fun _ => ⟨rfl, rfl⟩⟩
  · exact .inr ⟨['t'], rfl, fun _ => ⟨rfl, rfl⟩⟩
  · exact .inr ⟨['b'], rfl, fun _ => ⟨rfl, rfl⟩⟩
  · exact .inr ⟨['f'], rfl, fun _ => ⟨rfl, rfl⟩⟩
  · rename_i hquote hbackslash _ _ _ _ _
    split
    · rename_i hc
      exact .inr ⟨_, rfl, isEscapeOf_hexDigit hc⟩
    · rename_i hc
      exact .inl ⟨rfl, hquote, hbackslash, hc⟩

theorem readString_escape (c : Char) (cs : List Char) :
    readString (escape c ++ cs) = (readString cs).map (c :: ·) := by
  rcases escape_cases c with ⟨hplain, hquote, hbackslash, hc⟩ | ⟨e, hescape, he⟩
  · rw [hplain, List.singleton_append, readString, if_neg hquote, if_neg hbackslash, if_neg hc]
  · rw [hescape, List.cons_append, readString, if_neg (by decide), if_pos rfl]
    split
    · rename_i hread
      cases (he cs).1.symm.trans hread
    · rename_i hread
      cases (he cs).1.symm.trans hread
      rfl

theorem passString_escape (c : Char) (cs : List Char) :
    passString (escape c ++ cs) = passString cs := by
  rcases escape_cases c with ⟨hplain, hquote, hbackslash, hc⟩ | ⟨e, hescape, he⟩
  · rw [hplain, List.singleton_append, passString, if_neg hquote, if_neg hbackslash, if_neg hc]
  · rw [hescape, List.cons_append, passString, if_neg (by decide), if_pos rfl]
    split
    · rename_i hpass
      cases (he cs).2.symm.trans hpass
    · rename_i hpass
      cases (he cs).2.symm.trans hpass
      rfl

theorem readString_flatMap_escape (cs rest : List Char) :
    readString (cs.flatMap escape ++ '"' :: rest) = .ok cs := by
  induction cs with
  | nil => rw [List.flatMap_nil, List.nil_append, readString, if_pos rfl]
  | cons c cs ih =>
    rw [List.flatMap_cons, List.append_assoc, readString_escape, ih]
    rfl

theorem passString_flatMap_escape (cs rest : List Char) :
    passString (cs.flatMap escape ++ '"' :: rest) = .ok rest := by
  induction cs with
  | nil => rw [List.flatMap_nil, List.nil_append, passString, if_pos rfl]
  | cons c cs ih => rw [List.flatMap_cons, List.append_assoc, passString_escape, ih]

theorem symbols_quote (s : String) (rest : List Char) :
    symbols (quote s ++ rest) = .string (.ok s) :: symbols rest := by
  have hread : readSymbol '"' (s.toList.flatMap escape ++ '"' :: rest)
      = (.string (.ok s), some rest) := by
    rw [readSymbol, if_neg (by decide), if_pos rfl, readString_flatMap_escape,
      passString_flatMap_escape]
    simp only [Except.map, String.ofList_toList]
  rw [quote, List.cons_append, List.cons_append, List.append_assoc, List.singleton_append]
  exact symbols_of_readSymbol rfl hread

/-! ## Numbers -/

/-- A number that ends here would not go on. -/
def EndsNumber (rest : List Char) : Prop :=
  ∀ c ∈ rest.head?, c.isDigit = false ∧ c ≠ '.' ∧ c ≠ 'e' ∧ c ≠ 'E'

theorem endsNumber_nil : EndsNumber [] := by
  simp [EndsNumber]

theorem endsNumber_cons {c : Char} (hc : c ∈ [',', ']', '\x7d']) (rest : List Char) :
    EndsNumber (c :: rest) := by
  intro d hd
  cases hd
  simp only [List.mem_cons, List.not_mem_nil, or_false] at hc
  rcases hc with rfl | rfl | rfl <;> decide

/-- The numeral that a number is written as. -/
def numeral (n : Nat) : Numeral :=
  ⟨false, (toString n).toList, none, none⟩

theorem toList_toString (n : Nat) : (toString n).toList = Nat.toDigits 10 n := by
  rw [Nat.toString_eq_ofList_toDigits, String.toList_ofList]

/-- Only zero is written with a zero first. -/
theorem head?_toDigits_ne {n : Nat} (hn : 0 < n) : (Nat.toDigits 10 n).head? ≠ some '0' := by
  induction n using Nat.strongRecOn with
  | ind n ih =>
    rw [Nat.toDigits_eq_if (by decide)]
    split
    · simpa [Nat.digitChar_eq_zero] using Nat.ne_of_gt hn
    · have hhead := ih (n / 10) (by omega) (by omega)
      rwa [List.head?_append, Option.or_of_isSome]
      simp [Nat.toDigits_ne_nil]

theorem takeWhile_isDigit_append {digits rest : List Char} (hdigits : ∀ c ∈ digits, c.isDigit)
    (hrest : EndsNumber rest) :
    (digits ++ rest).takeWhile Char.isDigit = digits
      ∧ (digits ++ rest).dropWhile Char.isDigit = rest := by
  rw [List.takeWhile_append_of_pos hdigits, List.dropWhile_append_of_pos hdigits]
  cases rest with
  | nil => simp
  | cons c rest => simp [(hrest c rfl).1]

theorem readInteger_toDigits (n : Nat) {rest : List Char} (hrest : EndsNumber rest) :
    readInteger (Nat.toDigits 10 n ++ rest) = .ok (Nat.toDigits 10 n, rest) := by
  rcases Nat.eq_zero_or_pos n with rfl | hn
  · -- A digit after a zero would be a flaw.
    rw [Nat.toDigits_zero, List.singleton_append, readInteger, if_pos rfl, if_neg]
    cases rest with
    | nil => simp
    | cons c rest => simp [(hrest c rfl).1]
  · have hdigits : ∀ c ∈ Nat.toDigits 10 n, c.isDigit := fun c =>
      Nat.isDigit_of_mem_toDigits (by decide) (by decide)
    have hhead := head?_toDigits_ne hn
    obtain ⟨d, ds, hds⟩ := List.exists_cons_of_ne_nil (Nat.toDigits_ne_nil (n := n) (b := 10))
    rw [hds] at hdigits hhead ⊢
    obtain ⟨hd, hds⟩ := List.forall_mem_cons.1 hdigits
    obtain ⟨htake, hdrop⟩ := takeWhile_isDigit_append hds hrest
    rw [List.cons_append, readInteger, if_neg (by simpa using hhead), if_pos hd, htake, hdrop]

theorem readFraction_of_endsNumber {rest : List Char} (hrest : EndsNumber rest) :
    readFraction rest = .ok (none, rest) := by
  unfold readFraction
  split
  · exact absurd rfl (hrest _ rfl).2.1
  · rfl

theorem readExponent_of_endsNumber {rest : List Char} (hrest : EndsNumber rest) :
    readExponent rest = .ok (none, rest) := by
  cases rest with
  | nil => rfl
  | cons c rest =>
    obtain ⟨-, -, he, hE⟩ := hrest c rfl
    simp only [readExponent, he, hE, or_self, if_false]

theorem readNumeral_toDigits (n : Nat) {rest : List Char} (hrest : EndsNumber rest) :
    readNumeral false (Nat.toDigits 10 n ++ rest) = .ok (numeral n, rest) := by
  rw [readNumeral, readInteger_toDigits n hrest]
  simp only [bind, Except.bind, readFraction_of_endsNumber hrest, readExponent_of_endsNumber hrest,
    numeral, toList_toString]
  rfl

theorem ne_of_isDigit {c d : Char} (hc : c.isDigit) (hd : d.isDigit = false) : c ≠ d := by
  rintro rfl
  simp [hc] at hd

theorem isSpace_of_isDigit {c : Char} (hc : c.isDigit) : isSpace c = false := by
  simp [isSpace, ne_of_isDigit hc]

theorem readSymbol_of_isDigit {c : Char} (hc : c.isDigit) {cs rest : List Char} {n : Numeral}
    (h : readNumeral false (c :: cs) = .ok (n, rest)) :
    readSymbol c cs = (.scalar (.number n), some rest) := by
  have hmark : isPunctuation c = false := by
    simp [isPunctuation, ne_of_isDigit hc]
  have hscalar : readScalar c cs = .ok (.number n, rest) := by
    simp only [readScalar, ne_of_isDigit hc (d := 'n') rfl, ne_of_isDigit hc (d := 't') rfl,
      ne_of_isDigit hc (d := 'f') rfl, ne_of_isDigit hc (d := '-') rfl, hc, h, if_false, if_true]
    rfl
  rw [readSymbol, hmark, if_neg (by decide), if_neg (ne_of_isDigit hc rfl), hscalar]

theorem symbols_number (n : Nat) {rest : List Char} (hrest : EndsNumber rest) :
    symbols ((toString n).toList ++ rest) = .scalar (.number (numeral n)) :: symbols rest := by
  have hread := readNumeral_toDigits n hrest
  obtain ⟨d, ds, hds⟩ := List.exists_cons_of_ne_nil (Nat.toDigits_ne_nil (n := n) (b := 10))
  have hd : d.isDigit :=
    Nat.isDigit_of_mem_toDigits (by decide) (by decide) (hds ▸ List.mem_cons_self ..)
  rw [hds, List.cons_append] at hread
  rw [toList_toString, hds, List.cons_append]
  exact symbols_of_readSymbol (isSpace_of_isDigit hd) (readSymbol_of_isDigit hd hread)

end Jsni.Json
