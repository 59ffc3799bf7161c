/-!
# Column types

The type of a column as a tree. Scalars are either of a kind that deletion queries can match on
or named only; structs, maps and arrays nest.
-/

namespace Expunge

/-- The scalar types that a deletion query can match on. -/
inductive PrimitiveKind
  | char
  | string
  | varchar
  | bigint
  | int
  | smallint
  | tinyint
  | double
  | float
deriving DecidableEq, Repr

namespace PrimitiveKind

/-- The name of a kind. -/
def name : PrimitiveKind → String
  | char => "char"
  | string => "string"
  | varchar => "varchar"
  | bigint => "bigint"
  | int => "int"
  | smallint => "smallint"
  | tinyint => "tinyint"
  | double => "double"
  | float => "float"

/-- Every kind, each once. -/
def all : List PrimitiveKind :=
  [char, string, varchar, bigint, int, smallint, tinyint, double, float]

theorem mem_all (kind : PrimitiveKind) : kind ∈ all := by
  cases kind <;> decide

/-- The kind with the given name; `integer` is another name of `int`. -/
def ofName? (name : String) : Option PrimitiveKind :=
  if name = "integer" then some int else all.find? fun kind => kind.name = name

@[simp] theorem ofName?_name (kind : PrimitiveKind) : ofName? kind.name = some kind := by
  cases kind <;> decide

/-- The kinds whose values are texts. -/
def isTextual : PrimitiveKind → Bool
  | char | string | varchar => true
  | _ => false

/-- The kinds whose values are integers. -/
def isIntegral : PrimitiveKind → Bool
  | bigint | int | smallint | tinyint => true
  | _ => false

end PrimitiveKind

/-- The type of a column. -/
inductive ColumnType
  | primitive (kind : PrimitiveKind)
  /-- A scalar that no query can match on, such as `decimal` or `boolean`. -/
  | unsupported (name : String)
  | struct (fields : List (String × ColumnType))
  | map (key value : ColumnType)
  | array (element : ColumnType)
deriving Repr

namespace ColumnType

/-- The scalar with the given name, which is lower-cased. -/
def ofScalarName (name : List Char) : ColumnType :=
  let name := String.ofList (name.map Char.toLower)
  match PrimitiveKind.ofName? name with
  | some kind => .primitive kind
  | none => .unsupported name

end ColumnType

end Expunge
