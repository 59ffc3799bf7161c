import Expunge.Text.Decimal

/-!
# Binary64 numbers

The 64-bit floating-point numbers as a sign and a rank: the place of the magnitude in the
ascending list of all magnitudes. Zero has rank 0, the least positive number rank 1, infinity rank
`infinityRank`, and NaNs take the ranks above it. The magnitude of a finite number is a whole
number of units, a unit being the least positive number `2 ^ -1074`; so rounding to a binary64
number is exact arithmetic on naturals, and two numbers are equal exactly when their bits are.
-/

namespace Expunge

/-- A binary64 number. -/
structure Binary64 where
  negative : Bool
  rank : Fin (2 ^ 63)
deriving DecidableEq, Repr

namespace Binary64

/-- The number of magnitudes from one power of two up to the next. -/
def binade : Nat := 2 ^ 52

/-- The rank of infinity. -/
def infinityRank : Nat := 2047 * binade

/-- Neither an infinity nor a NaN. -/
def isFinite (x : Binary64) : Bool :=
  x.rank.val < infinityRank

/-- Not a number. -/
def isNaN (x : Binary64) : Bool :=
  infinityRank < x.rank.val

/-- The number with the given bit pattern: the sign bit, then the rank. -/
def ofBits (bits : UInt64) : Binary64 :=
  ⟨2 ^ 63 ≤ bits.toNat, ⟨bits.toNat % 2 ^ 63, Nat.mod_lt _ (by decide)⟩⟩

/-- The bit pattern of a number. -/
def toBits (x : Binary64) : UInt64 :=
  UInt64.ofNat ((if x.negative then 2 ^ 63 else 0) + x.rank.val)

/-- The magnitude of the given rank, in units. -/
def unitsOfRank (rank : Nat) : Nat :=
  let shift := rank / binade - 1
  (rank - shift * binade) * 2 ^ shift

/-- The magnitude of a finite number, in units. -/
def units (x : Binary64) : Nat :=
  unitsOfRank x.rank

/-- The number of units in one. -/
def unitsPerOne : Nat := 2 ^ 1074

/-- The integer nearest to `num / den`; of two equally near ones the even one. -/
def roundHalfEven (num den : Nat) : Nat :=
  let quotient := num / den
  let remainder := num % den
  if 2 * remainder < den then quotient
  else if den < 2 * remainder then quotient + 1
  else quotient + quotient % 2

/-- The rank of the magnitude nearest to `num / den` units; of two equally near ones that with the
even rank. The ranks from `infinityRank` on go on as if there were no largest finite number. -/
def rankOfUnits (num den : Nat) : Nat :=
  let shift := (num / den).log2 - 52
  shift * binade + roundHalfEven num (den * 2 ^ shift)

/-- The number with the given sign and rank; the ranks above infinity become infinity. -/
def ofRank (negative : Bool) (rank : Nat) : Binary64 :=
  ⟨negative, ⟨min rank infinityRank, by simp only [infinityRank, binade]; omega⟩⟩

/-- Every decimal exponent above this one gives infinity, whatever the coefficient, and every
decimal magnitude below the inverse power gives zero. -/
def exponentLimit : Nat := 400

/-- The rank of the magnitude nearest to `coefficient * 10 ^ exponent`. An exponent out of all
bounds is answered without computing the power of ten. -/
def rankOfDecimal (coefficient : Nat) (exponent : Int) : Nat :=
  if coefficient = 0 then 0
  else if (exponentLimit : Int) < exponent then infinityRank
  else if exponent + coefficient.log2 + exponentLimit < 0 then 0
  else match exponent with
    | .ofNat e => rankOfUnits (coefficient * 10 ^ e * unitsPerOne) 1
    | .negSucc e => rankOfUnits (coefficient * unitsPerOne) (10 ^ (e + 1))

/-- The number nearest to a decimal, an infinity if the decimal is too large. -/
def ofDecimal (d : Decimal) : Binary64 :=
  ofRank d.negative (rankOfDecimal d.coefficient d.exponent)

/-- The finite number nearest to a decimal; none if the decimal is too large. -/
def ofDecimal? (d : Decimal) : Option Binary64 :=
  let x := ofDecimal d
  if x.isFinite then some x else none

/-- The number nearest to an integer. -/
def ofInt (i : Int) : Binary64 :=
  ofDecimal ⟨i < 0, i.natAbs, 0⟩

/-- The integer that a number is equal to, if there is one. -/
def toInt? (x : Binary64) : Option Int :=
  if x.isFinite ∧ x.units % unitsPerOne = 0 then
    some (Text.signed x.negative (x.units / unitsPerOne))
  else none

end Binary64

end Expunge
