/-!
# Hexadecimal digits

The value of a hexadecimal digit of either case, the number that such digits spell, and the
character whose code point that number is.
-/

namespace Expunge.Text

/-- The value of a hexadecimal digit of either case. -/
def hexDigit? (c : Char) : Option Nat :=
  if c.isDigit then some (c.toNat - '0'.toNat)
  else if 'a' ≤ c ∧ c ≤ 'f' then some (c.toNat - 'a'.toNat + 10)
  else if 'A' ≤ c ∧ c ≤ 'F' then some (c.toNat - 'A'.toNat + 10)
  else none

/-- The number that digits spell in a base, the most significant one first. -/
def ofBase (base : Nat) (digits : List Nat) : Nat :=
  digits.foldl (fun n d => base * n + d) 0

/-- The number that hexadecimal digits spell. -/
def readHex? (digits : List Char) : Option Nat :=
  (digits.mapM hexDigit?).map (ofBase 16)

/-- The character whose code point hexadecimal digits spell. -/
def hexChar? (digits : List Char) : Option Char := do
  let point ← readHex? digits
  if h : point.isValidChar then some (Char.ofNatAux point h) else none

end Expunge.Text
