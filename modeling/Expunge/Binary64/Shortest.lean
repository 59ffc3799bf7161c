import Expunge.Binary64.Basic

/-!
# The fewest digits that read back

A finite number has many decimals that round to it. `shortest` finds one with the fewest digits
and, among those, the nearest to the number; what happens when two are equally near is left to
the writer's `Tie`. Every candidate is checked by reading it back, so whatever the search returns
rounds to the number it was asked for.
-/

namespace Expunge.Binary64

/-- Which of two equally near decimals is written: the larger one, or the one with an even last
digit. -/
inductive Tie
  | larger
  | even
deriving DecidableEq, Repr

/-- The exact decimal value of the magnitude of the given rank is its `exactCoefficient` times
`10 ^ -1074`, because a unit is `5 ^ 1074 * 10 ^ -1074`. -/
def exactCoefficient (rank : Nat) : Nat :=
  unitsOfRank rank * 5 ^ 1074

/-- Whether a decimal magnitude rounds to the given rank. -/
def readsBack (rank coefficient : Nat) (exponent : Int) : Bool :=
  -- with the decimal in front, the kernel would compute it to compare two searches
  rank == rankOfDecimal coefficient exponent

/-- Of the two multiples of `10 ^ (dropped - 1074)` around the magnitude of the given rank, the one
that rounds to this rank; of two the nearer one. -/
def candidate? (tie : Tie) (rank dropped : Nat) : Option (Nat × Int) :=
  let grid := 10 ^ dropped
  let exponent : Int := dropped - 1074
  let below := exactCoefficient rank / grid
  let remainder := exactCoefficient rank % grid
  let above := below + 1
  match readsBack rank below exponent, readsBack rank above exponent with
  | true, true =>
    let takeAbove := grid < 2 * remainder ∨
      (grid = 2 * remainder ∧ (tie = .larger ∨ below % 2 = 1))
    some (if takeAbove then above else below, exponent)
  | true, false => some (below, exponent)
  | false, true => some (above, exponent)
  | false, false => none

/-- The most digits that a number ever needs. -/
def digitLimit : Nat := 17

/-- The shortest decimal that rounds to the positive finite magnitude of the given rank, as a
coefficient with no zero at its end and an exponent. Where the digit limit were not enough, it is
the exact value. -/
def shortestOfRank (tie : Tie) (rank : Nat) : Nat × Int :=
  let count := Text.digitCount (exactCoefficient rank)
  let found := (List.range digitLimit).findSome? fun n => candidate? tie rank (count - (n + 1))
  let (coefficient, exponent) := found.getD (exactCoefficient rank, -1074)
  Decimal.stripZeros count coefficient exponent

/-- The shortest decimal that rounds to a finite number. -/
def shortest (tie : Tie) (x : Binary64) : Decimal :=
  if x.rank.val = 0 then ⟨x.negative, 0, 0⟩
  else
    let (coefficient, exponent) := shortestOfRank tie x.rank
    ⟨x.negative, coefficient, exponent⟩

/-- A number as text: the fewest digits, always positional, with a point only if digits follow it;
of two equally near decimals the larger one. -/
def toText (x : Binary64) : List Char :=
  let sign := if x.negative then ['-'] else []
  if x.isNaN then ['N', 'a', 'N']
  else if !x.isFinite then sign ++ ['i', 'n', 'f']
  else
    let d := x.shortest .larger
    let (whole, fraction) := Decimal.layOut (Text.digits d.coefficient) d.exponent
    let point := if fraction.isEmpty then [] else '.' :: Text.ofDigitList fraction
    sign ++ Text.ofDigitList whole ++ point

end Expunge.Binary64
