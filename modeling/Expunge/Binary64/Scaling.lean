import Expunge.Binary64.Basic

/-!
# Scaling by powers of ten

Products and quotients of magnitudes, and the scaling of a significand by a power of ten in floating
point. Every step is rounded to the nearest number, so a scaled significand may differ in its last
bits from the number nearest to the decimal; `rankOfDecimal` is the reader that rounds once.
-/

namespace Expunge.Binary64

/-- The rank of the magnitude nearest to a product of finite magnitudes. -/
def mulRank (a b : Nat) : Nat :=
  min (rankOfUnits (unitsOfRank a * unitsOfRank b) unitsPerOne) infinityRank

/-- The rank of the magnitude nearest to a quotient of finite magnitudes. -/
def divRank (a b : Nat) : Nat :=
  min (rankOfUnits (unitsOfRank a * unitsPerOne) (unitsOfRank b)) infinityRank

/-- The largest power of ten that is a finite number. -/
def powerLimit : Nat := 308

/-- The rank of a power of ten. -/
def powerRank (exponent : Nat) : Nat :=
  rankOfDecimal 1 exponent

/-- A magnitude divided by a power of ten, in steps of powers that are finite. Zero stays zero. -/
def scaleDown (rank exponent : Nat) : Nat :=
  if exponent ≤ powerLimit then divRank rank (powerRank exponent)
  else if rank = 0 then 0
  else scaleDown (divRank rank (powerRank powerLimit)) (exponent - powerLimit)
termination_by exponent
decreasing_by simp only [powerLimit] at *; omega

/-- The rank of a significand times a power of ten: first the significand is rounded, then the
product or quotient. None if the result is not finite. -/
def scaledRank? (significand : Nat) (exponent : Int) : Option Nat :=
  let rank := rankOfDecimal significand 0
  match exponent with
  | .ofNat exponent =>
    if rank = 0 then some 0
    else if powerLimit < exponent then none
    else
      let product := mulRank rank (powerRank exponent)
      if product < infinityRank then some product else none
  | .negSucc n => some (scaleDown rank (n + 1))

end Expunge.Binary64
