import Expunge.Text.Digits

/-!
# Decimal numbers

A decimal number is a coefficient and a power of ten. The module reads one from a text in the
usual notation and lays its digits out around the decimal point.
-/

namespace Expunge

/-- The number `coefficient * 10 ^ exponent`, with a sign that zero keeps. -/
structure Decimal where
  negative : Bool
  coefficient : Nat
  exponent : Int
deriving DecidableEq, Repr

namespace Decimal

/-- The decimal that is written with the digits `whole` before the point, the digits `fraction`
after it, and a power of ten. -/
def ofParts (negative : Bool) (whole fraction : List Digit) (exponent : Int) : Decimal :=
  ⟨negative, Text.ofDigits (whole ++ fraction), exponent - fraction.length⟩

/-- The longest run of digits at the start of a text, and the rest. -/
def spanDigits (text : List Char) : List Char × List Char :=
  (text.takeWhile Char.isDigit, text.dropWhile Char.isDigit)

/-- The exponent that ends a decimal: nothing, or `e` and an integer. -/
def readExponent? : List Char → Option Int
  | [] => some 0
  | mark :: rest => if mark = 'e' ∨ mark = 'E' then Text.readInt? rest else none

/-- The decimal that a text spells: an optional sign, digits with at most one point among or
around them, and an optional exponent. -/
def read? (text : List Char) : Option Decimal := do
  let (negative, unsigned) := Text.readSign text
  let (whole, rest) := spanDigits unsigned
  let (fraction, rest) := match rest with
    | '.' :: rest => spanDigits rest
    | rest => ([], rest)
  guard !(whole.isEmpty && fraction.isEmpty)
  let whole ← Text.readDigits? whole
  let fraction ← Text.readDigits? fraction
  return ofParts negative whole fraction (← readExponent? rest)

/-- Digits scaled by a power of ten, as the digits before and after the decimal point. There is
at least one digit before the point; no digit is dropped after it. -/
def layOut (digits : List Digit) (exponent : Int) : List Digit × List Digit :=
  match exponent with
  | .ofNat zeros => (digits ++ List.replicate zeros 0, [])
  | .negSucc n =>
    let places := n + 1
    if places < digits.length then digits.splitAt (digits.length - places)
    else ([0], List.replicate (places - digits.length) 0 ++ digits)

/-- Moves the zeros at the end of a coefficient into the exponent. The fuel bounds their
number. -/
def stripZeros (fuel : Nat) (coefficient : Nat) (exponent : Int) : Nat × Int :=
  match fuel with
  | 0 => (coefficient, exponent)
  | fuel + 1 =>
    if coefficient ≠ 0 ∧ coefficient % 10 = 0 then stripZeros fuel (coefficient / 10) (exponent + 1)
    else (coefficient, exponent)

end Decimal

end Expunge
