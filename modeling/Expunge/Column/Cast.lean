import Expunge.Column.Resolution
import Expunge.Value

/-!
# Casting values to the types of columns

A value is searched for in a column only in the shape of the column's type. Texts take any value;
integers and floats take the values that read as one.
-/

namespace Expunge

namespace Value

/-- A value as an integer: an integer as it is, a float that equals an integer, or a text that
spells one. Texts are never read through a float, which would round them. -/
def toInteger? : Value → Option Int64
  | integer value => some value
  | float value => value.toInt?.bind Text.int64?
  | text value => (Text.readInt? (Text.trim value.toList)).bind Text.int64?

/-- A value as a float: a float as it is, otherwise the nearest float to the integer or to the
decimal that the text spells, which has to be finite. -/
def toFloat? : Value → Option Binary64
  | integer value => some (Binary64.ofInt value.toInt)
  | float value => some value
  | text value => (Decimal.read? (Text.trim value.toList)).bind Binary64.ofDecimal?

/-- A value in the shape of a kind, if it has one. -/
def castTo? (value : Value) (kind : PrimitiveKind) : Option Value :=
  if kind.isTextual then some (.text value.toText)
  else if kind.isIntegral then value.toInteger?.map .integer
  else value.toFloat?.map .float

end Value

namespace Column

/-- Casts a value to the kind that a path resolves to. -/
def cast (value : Value) (path : String) (columns : List Column) : Except ColumnError Value := do
  let kind ← resolve columns path
  match value.castTo? kind with
  | some typed => .ok typed
  | none => .error (.uncastable path value.toText kind)

end Column

end Expunge
