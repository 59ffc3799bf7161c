import Expunge.Binary64.Scaling
import Expunge.Binary64.Shortest

/-!
# JSON trees

A document as a tree in the order of its text: numbers as they are written, members with their
repetitions. A tree also records what a reader may stumble over later. A string is `none` when it
stands for no text, because it holds half of a surrogate pair or bytes that are not UTF-8; such a
string may be passed over but not read. `malformed` stands at the place where a text stops being
JSON.
-/

namespace Expunge

/-- A number as a document writes it: an integer, and possibly digits after a point and a power of
ten. -/
structure Numeral where
  negative : Bool
  whole : Nat
  fraction : List Digit
  exponent : Option Int
deriving DecidableEq, Repr

/-- A document, as a tree. -/
inductive Json
  | malformed
  | null
  | bool (value : Bool)
  | number (value : Numeral)
  | string (text : Option String)
  | array (items : List Json)
  | object (members : List (Option String × Json))
deriving Repr

namespace Numeral

/-- The numeral of an integer. -/
def ofInt (i : Int) : Numeral :=
  ⟨i < 0, i.natAbs, [], none⟩

/-- Whether a numeral has neither a point nor a power of ten. -/
def isInteger (n : Numeral) : Bool :=
  n.fraction.isEmpty && n.exponent.isNone

/-- The integer that a numeral spells. Negative zero is not an integer. -/
def toInt? (n : Numeral) : Option Int :=
  if n.isInteger && !(n.negative && n.whole == 0) then some (Text.signed n.negative n.whole)
  else none

/-- What a significand may not reach. -/
def significandLimit : Nat := 2 ^ 64

/-- Appends digits to a significand as long as they fit; the digits from the first one that does not
fit are left. -/
def takeDigits (significand : Nat) : List Digit → Nat × List Digit
  | [] => (significand, [])
  | d :: rest =>
    if 10 * significand + d.val < significandLimit then takeDigits (10 * significand + d.val) rest
    else (significand, d :: rest)

/-- The significand and the power of ten that a float is read from. The digits before the point that
do not fit into the significand count as zeros, those after it do not count at all. -/
def scaled (n : Numeral) : Nat × Int :=
  let (significand, zeros) := takeDigits 0 (Text.digits n.whole)
  let (significand, dropped) := takeDigits significand n.fraction
  (significand, zeros.length + dropped.length - n.fraction.length + n.exponent.getD 0)

/-- The float that a numeral is read as; none if it is too large for one. -/
def toBinary64? (n : Numeral) : Option Binary64 :=
  (Binary64.scaledRank? n.scaled.1 n.scaled.2).map (Binary64.ofRank n.negative)

/-- The least power of ten that is written positionally. -/
def leastPositional : Int := -5

/-- The least power of ten that is written with an exponent. -/
def leastScientific : Int := 16

/-- The numeral of a finite float: the fewest digits that read back, of two equally near decimals
the even one. Magnitudes from `10 ^ -5` up to `10 ^ 16` have digits on both sides of a point, others
have one digit before it and an exponent. -/
def ofBinary64 (x : Binary64) : Numeral :=
  let d := x.shortest .even
  let digits := Text.digits d.coefficient
  let magnitude := d.exponent + digits.length - 1
  if d.coefficient = 0 ∨ (leastPositional ≤ magnitude ∧ magnitude < leastScientific) then
    let (whole, fraction) := Decimal.layOut digits d.exponent
    ⟨d.negative, Text.ofDigits whole, if fraction.isEmpty then Text.digits 0 else fraction, none⟩
  else ⟨d.negative, Text.ofDigits (digits.take 1), digits.drop 1, some magnitude⟩

end Numeral

namespace Json

/-- The tree of a text. -/
def ofString (text : String) : Json :=
  .string (some text)

/-- The tree of an integer. -/
def ofInt (i : Int) : Json :=
  .number (.ofInt i)

/-- The tree of a natural number. -/
def ofNat (n : Nat) : Json :=
  .ofInt n

/-- The tree of a float; infinities and NaNs have no numeral and become `null`. -/
def ofBinary64 (x : Binary64) : Json :=
  if x.isFinite then .number (.ofBinary64 x) else .null

/-- The tree of a list of texts. -/
def ofStrings (texts : List String) : Json :=
  .array (texts.map ofString)

/-- An object whose members have distinct, readable names. -/
def ofFields (fields : List (String × Json)) : Json :=
  .object (fields.map fun field => (some field.1, field.2))

end Json

end Expunge
