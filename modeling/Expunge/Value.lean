import Expunge.Json.Decode

/-!
# Values

A value is an integer, a float or a text. Requests give values in whatever shape they were
entered; queries hold values of the shape that the type of their column asks for. Two values are
equal if they have the same shape and, for floats, the same bits, so `7`, `7.0`, `"7"`, `0.0` and
`-0.0` are five values.
-/

namespace Expunge

/-- A value as requests give it and as queries hold it. -/
inductive Value
  | integer (value : Int64)
  | float (value : Binary64)
  | text (value : String)
deriving DecidableEq, Repr

namespace Value

/-- A value as text, as it is shown in messages and searched for in columns of texts. -/
def toText : Value → String
  | integer value => String.ofList (Text.ofInt value.toInt)
  | float value => String.ofList value.toText
  | text value => value

/-- A value as a document holds it. -/
def toJson : Value → Json
  | integer value => .ofInt value.toInt
  | float value => .ofBinary64 value
  | text value => .ofString value

/-- The value of a numeral: an integer if it is one of 64 bits, otherwise the nearest float. -/
def ofNumeral? (n : Numeral) : Option Value :=
  match n.toInt?.bind Text.int64? with
  | some value => some (.integer value)
  | none => n.toBinary64?.map .float

/-- The value that a document holds. -/
def decode? : Json → Option Value
  | .number n => ofNumeral? n
  | .string value => value.map .text
  | _ => none

end Value

end Expunge
