import Jsni.Text.Position
import Jsni.Json.Draft

/-!
# Symbols of JSON texts

Cuts a text into punctuation, strings and other scalars. The first that is flawed is the last.
-/

namespace Jsni.Json

open Text

inductive Symbol where
  | mark (c : Char)
  | string (text : Except Flaw String)
  | scalar (d : Draft)
  | brokenString (b : Break)
  | brokenScalar (b : Break)

def isSpace (c : Char) : Bool :=
  c = ' ' || c = '\n' || c = '\t' || c = '\r'

/-! ## Strings -/

def hexValue? (c : Char) : Option Nat :=
  if c.isDigit then some (c.toNat - '0'.toNat)
  else if 'a' ≤ c ∧ c ≤ 'f' then some (c.toNat - 'a'.toNat + 10)
  else if 'A' ≤ c ∧ c ≤ 'F' then some (c.toNat - 'A'.toNat + 10)
  else none

/-- Four hexadecimal digits. Less than four bytes of text are too few whatever they are. -/
def readHex (cs : List Char) : Except Flaw (Nat × List Char) :=
  match cs with
  | a :: b :: c :: d :: rest =>
    match hexValue? a, hexValue? b, hexValue? c, hexValue? d with
    | some a, some b, some c, some d => .ok (4096 * a + 256 * b + 16 * c + d, rest)
    | _, _, _, _                     => .error .malformed
  | cs => .error (if byteLength cs < 4 then .ended else .malformed)

/-- The character after a backslash, for escapes of one letter. -/
def simpleEscape? (c : Char) : Option Char :=
  match c with
  | '"'  => some '"'
  | '\\' => some '\\'
  | '/'  => some '/'
  | 'b'  => some '\x08'
  | 'f'  => some '\x0c'
  | 'n'  => some '\n'
  | 'r'  => some '\r'
  | 't'  => some '\t'
  | _    => none

/-- The character of an escape by code, from after its `u`. Characters beyond the first 65536 take
two escapes, a leading and a trailing one. -/
def readUnicodeEscape (cs : List Char) : Except Flaw (Char × List Char) := do
  let (high, rest) ← readHex cs
  if 0xDC00 ≤ high ∧ high ≤ 0xDFFF then
    throw .malformed
  else if 0xD800 ≤ high ∧ high ≤ 0xDBFF then
    match rest with
    | []                  => throw .ended
    | ['\\']              => throw .ended
    | '\\' :: 'u' :: rest =>
      let (low, rest) ← readHex rest
      if 0xDC00 ≤ low ∧ low ≤ 0xDFFF then
        return (Char.ofNat (0x10000 + (high - 0xD800) * 0x400 + (low - 0xDC00)), rest)
      else throw .malformed
    | _                   => throw .malformed
  else return (Char.ofNat high, rest)

/-- The character of an escape, from after its backslash. -/
def readEscape : List Char → Except Flaw (Char × List Char)
  | []      => .error .ended
  | c :: cs =>
    match simpleEscape? c with
    | some e => .ok (e, cs)
    | none   => if c = 'u' then readUnicodeEscape cs else .error .malformed

/-- The text after an escape that nobody wants to know, from after its backslash. -/
def passEscape : List Char → Except Flaw (List Char)
  | []      => .error .ended
  | c :: cs =>
    if (simpleEscape? c).isSome then .ok cs
    else if c = 'u' then (readHex cs).map (·.2)
    else .error .malformed

theorem readHex_length_lt {cs rest : List Char} {n : Nat} (h : readHex cs = .ok (n, rest)) :
    rest.length < cs.length := by
  unfold readHex at h
  split at h
  · split at h
    · cases h
      simp only [List.length_cons]
      omega
    · cases h
  · cases h

theorem readUnicodeEscape_length_lt {cs rest : List Char} {c : Char}
    (h : readUnicodeEscape cs = .ok (c, rest)) : rest.length < cs.length := by
  unfold readUnicodeEscape at h
  cases hhigh : readHex cs with
  | error e => simp [hhigh, bind, Except.bind] at h
  | ok p =>
    obtain ⟨high, after⟩ := p
    have hlt := readHex_length_lt hhigh
    simp only [hhigh, bind, Except.bind, throw, throwThe, MonadExceptOf.throw, pure,
      Except.pure] at h
    split at h
    · cases h
    · split at h
      · split at h
        · cases h
        · cases h
        · rename_i more
          cases hlow : readHex more with
          | error e => simp [hlow] at h
          | ok q =>
            have hlt' := @readHex_length_lt _ q.2 q.1 hlow
            simp only [hlow] at h
            split at h
            · simp only [Except.ok.injEq, Prod.mk.injEq] at h
              simp only [List.length_cons] at hlt
              rw [← h.2]
              omega
            · cases h
        · cases h
      · simp only [Except.ok.injEq, Prod.mk.injEq] at h
        rw [← h.2]
        exact hlt

theorem readEscape_length_lt {cs rest : List Char} {c : Char}
    (h : readEscape cs = .ok (c, rest)) : rest.length < cs.length := by
  unfold readEscape at h
  split at h
  · cases h
  · split at h
    · cases h
      simp
    · split at h
      · have := readUnicodeEscape_length_lt h
        simp only [List.length_cons]
        omega
      · cases h

theorem passEscape_length_lt {cs rest : List Char} (h : passEscape cs = .ok rest) :
    rest.length < cs.length := by
  unfold passEscape at h
  split at h
  · cases h
  · split at h
    · cases h
      simp
    · split at h
      · rename_i cs _ _
        cases hhex : readHex cs with
        | error e => simp [hhex, Except.map] at h
        | ok p =>
          have := @readHex_length_lt _ p.2 p.1 hhex
          simp only [hhex, Except.map, Except.ok.injEq] at h
          subst h
          simp only [List.length_cons]
          omega
      · cases h

/-- The text of a string, from after its opening quote. -/
def readString (cs : List Char) : Except Flaw (List Char) :=
  match cs with
  | []      => .error .ended
  | c :: cs =>
    if c = '"' then .ok []
    else if c = '\\' then
      match _h : readEscape cs with
      | .error f      => .error f
      | .ok (e, rest) => (readString rest).map (e :: ·)
    else if c.toNat < 0x20 then .error .malformed
    else (readString cs).map (c :: ·)
termination_by cs.length
decreasing_by
  all_goals simp only [List.length_cons]
  · have := readEscape_length_lt _h
    omega
  · omega

/-- What follows a string, from after its opening quote. -/
def passString (cs : List Char) : Except Flaw (List Char) :=
  match cs with
  | []      => .error .ended
  | c :: cs =>
    if c = '"' then .ok cs
    else if c = '\\' then
      match _h : passEscape cs with
      | .error f => .error f
      | .ok rest => passString rest
    else if c.toNat < 0x20 then .error .malformed
    else passString cs
termination_by cs.length
decreasing_by
  all_goals simp only [List.length_cons]
  · have := passEscape_length_lt _h
    omega
  · omega

theorem passString_length_lt {cs rest : List Char} (h : passString cs = .ok rest) :
    rest.length < cs.length := by
  fun_induction passString cs with
  | case1 => cases h
  | case2 => cases h; simp
  | case3 => cases h
  | case4 cs rest' hpass _ ih =>
    have := passEscape_length_lt hpass
    have := ih h
    simp only [List.length_cons]
    omega
  | case5 => cases h
  | case6 c cs _ _ _ ih =>
    have := ih h
    simp only [List.length_cons]
    omega

/-! ## Other scalars -/

/-- Digits are missing where the text ends or goes on. -/
def missingDigits (cs : List Char) : Break :=
  if cs = [] then ⟨.ended, .malformed⟩ else .same .malformed

def readFraction : List Char → Except Break (Option (List Char) × List Char)
  | '.' :: cs =>
    match cs.takeWhile Char.isDigit with
    | []     => .error (missingDigits cs)
    | digits => .ok (some digits, cs.dropWhile Char.isDigit)
  | cs        => .ok (none, cs)

def readExponentDigits (negative : Bool) (cs : List Char) : Except Break (Option Int × List Char) :=
  match cs.takeWhile Char.isDigit with
  | []     => .error (missingDigits cs)
  | digits =>
    let value : Int := Numeral.natOfDigits digits
    .ok (some (if negative then -value else value), cs.dropWhile Char.isDigit)

def readExponent : List Char → Except Break (Option Int × List Char)
  | []      => .ok (none, [])
  | c :: cs =>
    if c = 'e' ∨ c = 'E' then
      match cs with
      | '+' :: cs => readExponentDigits false cs
      | '-' :: cs => readExponentDigits true cs
      | cs        => readExponentDigits false cs
    else .ok (none, c :: cs)

/-- The integer part: a zero, or digits that do not begin with one. -/
def readInteger : List Char → Except Break (List Char × List Char)
  | []      => .error (missingDigits [])
  | c :: cs =>
    if c = '0' then
      if cs.head?.any Char.isDigit then .error (.same .malformed) else .ok ([c], cs)
    else if c.isDigit then .ok (c :: cs.takeWhile Char.isDigit, cs.dropWhile Char.isDigit)
    else .error (.same .malformed)

def readNumeral (negative : Bool) (cs : List Char) : Except Break (Numeral × List Char) := do
  let (integer, cs) ← readInteger cs
  let (fraction, cs) ← readFraction cs
  let (exponent, cs) ← readExponent cs
  return (⟨negative, integer, fraction, exponent⟩, cs)

/-- The rest of a fixed word. -/
def readRest : List Char → List Char → Except Break (List Char)
  | [],      cs      => .ok cs
  | _ :: _,  []      => .error (.same .ended)
  | w :: ws, c :: cs => if w = c then readRest ws cs else .error (.same .malformed)

/-- The scalar that begins with `c`. -/
def readScalar (c : Char) (cs : List Char) : Except Break (Draft × List Char) :=
  if c = 'n' then (readRest ['u', 'l', 'l'] cs).map (.null, ·)
  else if c = 't' then (readRest ['r', 'u', 'e'] cs).map (.bool true, ·)
  else if c = 'f' then (readRest ['a', 'l', 's', 'e'] cs).map (.bool false, ·)
  else if c = '-' then (readNumeral true cs).map fun (n, rest) => (.number n, rest)
  else if c.isDigit then (readNumeral false (c :: cs)).map fun (n, rest) => (.number n, rest)
  else .error (.same .malformed)

def isPunctuation (c : Char) : Bool :=
  c = '\x7b' || c = '\x7d' || c = '[' || c = ']' || c = ',' || c = ':'

/-- The symbol that begins with `c`, and the text after it unless the symbol is flawed. -/
def readSymbol (c : Char) (cs : List Char) : Symbol × Option (List Char) :=
  if isPunctuation c then (.mark c, some cs)
  else if c = '"' then
    match readString cs, passString cs with
    | text, .ok rest          => (.string (text.map .ofList), some rest)
    | .ok _, .error f         => (.brokenString (.same f), none)
    | .error wanted, .error f => (.brokenString ⟨wanted, f⟩, none)
  else
    match readScalar c cs with
    | .ok (d, rest) => (.scalar d, some rest)
    | .error b      => (.brokenScalar b, none)

/-! ## Cutting -/

theorem readInteger_length_lt {cs digits rest : List Char}
    (h : readInteger cs = .ok (digits, rest)) : rest.length < cs.length := by
  unfold readInteger at h
  split at h
  · cases h
  · rename_i c cs
    have hle := (List.dropWhile_sublist Char.isDigit (l := cs)).length_le
    split at h
    · split at h <;> cases h
      simp
    · split at h <;> cases h
      simp only [List.length_cons]
      omega

theorem readFraction_length_le {cs rest : List Char} {digits : Option (List Char)}
    (h : readFraction cs = .ok (digits, rest)) : rest.length ≤ cs.length := by
  unfold readFraction at h
  split at h
  · rename_i cs
    have hle := (List.dropWhile_sublist Char.isDigit (l := cs)).length_le
    split at h <;> cases h
    simp only [List.length_cons]
    omega
  · cases h
    exact Nat.le_refl _

theorem readExponentDigits_length_le {negative : Bool} {cs rest : List Char} {e : Option Int}
    (h : readExponentDigits negative cs = .ok (e, rest)) : rest.length ≤ cs.length := by
  have hle := (List.dropWhile_sublist Char.isDigit (l := cs)).length_le
  unfold readExponentDigits at h
  split at h <;> cases h
  exact hle

theorem readExponent_length_le {cs rest : List Char} {e : Option Int}
    (h : readExponent cs = .ok (e, rest)) : rest.length ≤ cs.length := by
  unfold readExponent at h
  split at h
  · cases h
    exact Nat.le_refl _
  · split at h
    · split at h
      all_goals
        have := readExponentDigits_length_le h
        simp only [List.length_cons] at this ⊢
        omega
    · cases h
      exact Nat.le_refl _

theorem readNumeral_length_lt {negative : Bool} {cs rest : List Char} {n : Numeral}
    (h : readNumeral negative cs = .ok (n, rest)) : rest.length < cs.length := by
  unfold readNumeral at h
  cases hint : readInteger cs with
  | error b => simp [hint, bind, Except.bind] at h
  | ok p =>
    cases hfrac : readFraction p.2 with
    | error b => simp [hint, hfrac, bind, Except.bind] at h
    | ok q =>
      cases hexp : readExponent q.2 with
      | error b => simp [hint, hfrac, hexp, bind, Except.bind] at h
      | ok r =>
        simp only [hint, hfrac, hexp, bind, Except.bind, pure, Except.pure, Except.ok.injEq,
          Prod.mk.injEq] at h
        have := @readInteger_length_lt cs p.1 p.2 hint
        have := @readFraction_length_le p.2 q.2 q.1 hfrac
        have := @readExponent_length_le q.2 r.2 r.1 hexp
        rw [← h.2]
        omega

theorem readRest_length_le {word cs rest : List Char} (h : readRest word cs = .ok rest) :
    rest.length ≤ cs.length := by
  fun_induction readRest word cs with
  | case1 => cases h; exact Nat.le_refl _
  | case2 => cases h
  | case3 w ws cs ih =>
    have := ih h
    simp only [List.length_cons]
    omega
  | case4 => cases h

theorem readScalar_length_le {c : Char} {cs rest : List Char} {d : Draft}
    (h : readScalar c cs = .ok (d, rest)) : rest.length ≤ cs.length := by
  have word {w : List Char} {v : Draft}
      (h : (readRest w cs).map (v, ·) = .ok (d, rest)) : rest.length ≤ cs.length := by
    cases hread : readRest w cs with
    | error b => simp [hread, Except.map] at h
    | ok r =>
      simp only [hread, Except.map, Except.ok.injEq, Prod.mk.injEq] at h
      exact h.2 ▸ readRest_length_le hread
  have numeral {negative : Bool} {ds : List Char}
      (h : (readNumeral negative ds).map (fun (n, rest) => (Draft.number n, rest))
        = .ok (d, rest)) : rest.length < ds.length := by
    cases hread : readNumeral negative ds with
    | error b => simp [hread, Except.map] at h
    | ok r =>
      simp only [hread, Except.map, Except.ok.injEq, Prod.mk.injEq] at h
      exact h.2 ▸ readNumeral_length_lt hread
  unfold readScalar at h
  split at h
  · exact word h
  · split at h
    · exact word h
    · split at h
      · exact word h
      · split at h
        · exact Nat.le_of_lt (numeral h)
        · split at h
          · exact Nat.le_of_lt_succ (numeral h)
          · cases h

theorem readSymbol_length_le {c : Char} {cs rest : List Char} {s : Symbol}
    (h : readSymbol c cs = (s, some rest)) : rest.length ≤ cs.length := by
  unfold readSymbol at h
  split at h
  · cases h
    exact Nat.le_refl _
  · split at h
    · split at h
      · rename_i hpass
        simp only [Prod.mk.injEq, Option.some.injEq] at h
        exact Nat.le_of_lt (h.2 ▸ passString_length_lt hpass)
      · cases h
      · cases h
    · split at h
      · rename_i hread
        simp only [Prod.mk.injEq, Option.some.injEq] at h
        exact h.2 ▸ readScalar_length_le hread
      · cases h

/-- The symbols of a text. -/
def symbols (cs : List Char) : List Symbol :=
  match cs with
  | []      => []
  | c :: cs =>
    if isSpace c then symbols cs
    else
      match _h : readSymbol c cs with
      | (s, none)      => [s]
      | (s, some rest) => s :: symbols rest
termination_by cs.length
decreasing_by
  all_goals simp only [List.length_cons]
  · omega
  · have := readSymbol_length_le _h
    omega

end Jsni.Json
