/-!
# Decimal digits

Naturals and integers as decimal digits: the digits of a number, the number that digits spell,
and the reading of an optional sign followed by digits. `ofDigits_digits` says that the digits of
a number spell that number.
-/

namespace Expunge

-- powers in this library are those of core, whatever other instance a module imports
attribute [scoped instance (high), default_instance (high + 1)] instPowNat

/-- A decimal digit. -/
abbrev Digit := Fin 10

namespace Digit

/-- The ASCII character of a digit. -/
def toChar (d : Digit) : Char :=
  Char.ofNat ('0'.toNat + d.val)

/-- The digit that an ASCII character spells. -/
def ofChar? (c : Char) : Option Digit :=
  if h : '0'.toNat ≤ c.toNat ∧ c.toNat < '0'.toNat + 10 then some ⟨c.toNat - '0'.toNat, by omega⟩
  else none

@[simp] theorem ofChar?_toChar (d : Digit) : ofChar? d.toChar = some d := by
  revert d; decide

end Digit

namespace Text

/-- The decimal digits of a number, the most significant one first; zero is the one digit 0. -/
def digits (n : Nat) : List Digit :=
  if h : n < 10 then [⟨n, h⟩] else digits (n / 10) ++ [⟨n % 10, Nat.mod_lt _ (by decide)⟩]

/-- The number that digits spell, the most significant one first. -/
def ofDigits (ds : List Digit) : Nat :=
  ds.foldl (fun n d => 10 * n + d.val) 0

theorem ofDigits_append_singleton (ds : List Digit) (d : Digit) :
    ofDigits (ds ++ [d]) = 10 * ofDigits ds + d.val := by
  simp [ofDigits, List.foldl_append]

@[simp] theorem ofDigits_digits (n : Nat) : ofDigits (digits n) = n := by
  induction n using Nat.strongRecOn with
  | ind n ih =>
    rw [digits]
    split
    · simp [ofDigits]
    · rw [ofDigits_append_singleton, ih (n / 10) (by omega)]
      exact Nat.div_add_mod n 10

/-- The number of decimal digits of a number. -/
def digitCount (n : Nat) : Nat :=
  if n < 10 then 1 else digitCount (n / 10) + 1

/-- Digits as text. -/
def ofDigitList (ds : List Digit) : List Char :=
  ds.map Digit.toChar

/-- A natural number as text. -/
def ofNat (n : Nat) : List Char :=
  ofDigitList (digits n)

/-- An integer as text: a minus sign where it is negative, then its digits. -/
def ofInt (i : Int) : List Char :=
  if i < 0 then '-' :: ofNat i.natAbs else ofNat i.natAbs

/-- The digits that a text consists of. -/
def readDigits? (text : List Char) : Option (List Digit) :=
  text.mapM Digit.ofChar?

/-- The natural number that a text of one or more digits spells; leading zeros are allowed. -/
def readNat? (text : List Char) : Option Nat :=
  if text.isEmpty then none else (readDigits? text).map ofDigits

/-- Splits a text into whether a minus sign starts it and what follows its sign, if it has one. -/
def readSign : List Char → Bool × List Char
  | '-' :: rest => (true, rest)
  | '+' :: rest => (false, rest)
  | text => (false, text)

/-- The integer with the given sign and magnitude. -/
def signed (negative : Bool) (magnitude : Nat) : Int :=
  if negative then -magnitude else magnitude

/-- The integer that a text spells: at most one sign, then one or more digits. -/
def readInt? (text : List Char) : Option Int :=
  let (negative, rest) := readSign text
  (readNat? rest).map (signed negative)

/-- The 64-bit integer equal to an integer, if there is one. -/
def int64? (i : Int) : Option Int64 :=
  if Int64.minValue.toInt ≤ i ∧ i ≤ Int64.maxValue.toInt then some (Int64.ofInt i) else none

end Text

end Expunge
