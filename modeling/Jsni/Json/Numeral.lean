/-!
# Numerals

The numbers that JSON texts hold are never used, only quoted in messages: integers of 64 bits as
such, all others as decimals, in scientific form if they are very large or very small.
-/

namespace Jsni.Json

/-- A number as it is written: the digits of its integer part and of its fraction, and its
exponent. -/
structure Numeral where
  negative : Bool
  integer : List Char
  fraction : Option (List Char)
  exponent : Option Int
deriving DecidableEq, Repr

namespace Numeral

def natOfDigits (digits : List Char) : Nat :=
  digits.foldl (fun n d => 10 * n + (d.toNat - '0'.toNat)) 0

/-- The value, if it is written as an integer and fits 64 bits. Minus zero is no integer. -/
def toInt? (n : Numeral) : Option Int :=
  if n.fraction.isSome || n.exponent.isSome then none
  else
    let value := natOfDigits n.integer
    if n.negative then
      if 0 < value ∧ 2 * value ≤ UInt64.size then some (-value) else none
    else if value < UInt64.size then some value else none

/-- The digits of a decimal without zeros at either end, and the power of ten of the last one. -/
def scaled (n : Numeral) : List Char × Int :=
  let fraction := n.fraction.getD []
  let digits := (n.integer ++ fraction).dropWhile (· = '0')
  let zeros := (digits.reverse.takeWhile (· = '0')).length
  (digits.take (digits.length - zeros), n.exponent.getD 0 - fraction.length + zeros)

/-- The decimal of some digits and a power of ten. It is positional if its point is at most 16
places after the first digit and at most 5 places before it. -/
def decimal (digits : List Char) (power : Int) : List Char :=
  let point := digits.length + power
  if digits = [] then ['0', '.', '0']
  else if 0 ≤ power ∧ point ≤ 16 then
    digits ++ List.replicate power.toNat '0' ++ ['.', '0']
  else if 0 < point ∧ point ≤ 16 then
    digits.take point.toNat ++ '.' :: digits.drop point.toNat
  else if -5 < point ∧ point ≤ 0 then
    '0' :: '.' :: List.replicate (-point).toNat '0' ++ digits
  else
    let mantissa := digits.take 1 ++ if digits.length = 1 then [] else '.' :: digits.drop 1
    mantissa ++ 'e' :: (toString (point - 1)).toList

/-- How messages call the number. -/
def describe (n : Numeral) : String :=
  match n.toInt? with
  | some i => "integer `" ++ toString i ++ "`"
  | none   =>
    let (digits, power) := n.scaled
    let sign := if n.negative then ['-'] else []
    "floating point `" ++ .ofList (sign ++ decimal digits power) ++ "`"

end Numeral

end Jsni.Json
