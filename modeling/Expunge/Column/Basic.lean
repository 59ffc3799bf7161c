import Expunge.ColumnType.Basic

/-!
# Columns

A column has a name and the text of its type, as a catalog declares it. This module also names
what can go wrong when a value is compiled against a column.
-/

namespace Expunge

/-- A column as a catalog declares it; the type is read when the column is used. -/
structure Column where
  name : String
  type : String
deriving DecidableEq, Repr

/-- Why a value cannot be compiled against a column. Paths are dotted names. -/
inductive ColumnError
  | invalidSchema (definition : String)
  | unknownColumn (path : String)
  | unknownField (path field : String)
  | unsupportedType (path : String)
  | uncastable (path value : String) (kind : PrimitiveKind)
deriving DecidableEq, Repr

namespace ColumnError

/-- The text of an error. -/
def message : ColumnError → String
  | invalidSchema _ => "Column schema is not valid"
  | unknownColumn path => "Column " ++ path ++ " does not exist"
  | unknownField path field => "Column " ++ path ++ " has no field named " ++ field
  | unsupportedType path =>
    "Column " ++ path ++ " is not a supported column type for querying"
  | uncastable path value kind =>
    "Value " ++ value ++ " for column " ++ path ++ " cannot be cast to " ++ kind.name

end ColumnError

end Expunge
