import Expunge.Column.Basic
import Expunge.ColumnType.Parser
import Expunge.Text.Split

/-!
# Dotted paths

A path such as `user.info.name` names a column and walks through the fields of its structs. It
resolves to the kind of the scalar it ends on. Only structs can be walked through; nothing inside
a map or an array has a path.
-/

namespace Expunge

namespace Column

/-- The segments of a path. -/
def segments (path : String) : List String :=
  (Text.splitAll '.' path.toList).map String.ofList

/-- Walks from a type through the fields that the segments name, each time the first so named, to
the kind of the scalar at the end. `walked` is the part of the path `whole` walked so far. -/
def walk (whole : String) : ColumnType → String → List String → Except ColumnError PrimitiveKind
  | .primitive kind, _, [] => .ok kind
  | _, _, [] => .error (.unsupportedType whole)
  | .struct fields, walked, segment :: rest =>
    match fields.lookup segment with
    | some type => walk whole type (walked ++ "." ++ segment) rest
    | none => .error (.unknownField walked segment)
  | .map _ _, _, _ :: _ => .error (.unsupportedType whole)
  | .array _, _, _ :: _ => .error (.unsupportedType whole)
  | .primitive _, walked, segment :: _ => .error (.unknownField walked segment)
  | .unsupported _, walked, segment :: _ => .error (.unknownField walked segment)

/-- The type that a column is declared with. -/
def parsedType (column : Column) : Except ColumnError ColumnType :=
  match ColumnType.parse? column.type with
  | some type => .ok type
  | none => .error (.invalidSchema column.type)

/-- Resolves a path against columns: the first segment names the first column so called, whose type
the other segments walk through. -/
def resolve (columns : List Column) (path : String) : Except ColumnError PrimitiveKind := do
  let segments := segments path
  let name := segments.headD ""
  match columns.find? fun column => column.name = name with
  | none => .error (.unknownColumn path)
  | some column =>
    let type ← column.parsedType
    walk path type name segments.tail

end Column

end Expunge
