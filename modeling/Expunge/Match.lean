import Expunge.Refusal
import Expunge.Value

/-!
# Matches

A match is a pending erasure request: a single value to be searched for in every column, or a list
of columns with a value each that identify a record together. It applies to the data mappers in its
scope, an empty scope meaning all of them. In a deletion queue a match is an entry whose identifier
alone, a list or a single value, decides which kind of match it is.
-/

namespace Expunge

/-- One column of a composite match, with the value it has to have. -/
structure ColumnValue where
  column : String
  value : Value
deriving DecidableEq, Repr

/-- A pending erasure request. Two matches are equal if their values, as values, and their scopes
are. -/
inductive Match
  | simple (value : Value) (scope : List String)
  | composite (columns : List ColumnValue) (scope : List String)
deriving DecidableEq, Repr

namespace ColumnValue

/-- A column value as a document holds it. -/
def toJson (pair : ColumnValue) : Json :=
  .ofFields [("column", .ofString pair.column), ("value", pair.value.toJson)]

/-- The column value that a document holds. -/
def decode? (room : Nat) (value : Json) : Option ColumnValue := do
  let field ← value.fields? room ["column", "value"]
  return ⟨← (← field "column").text?, ← Value.decode? (← field "value")⟩

end ColumnValue

namespace Match

/-- The data mappers that a match is restricted to. -/
def scope : Match → List String
  | simple _ scope => scope
  | composite _ scope => scope

/-- A match restricted to other data mappers. -/
def withScope (scope : List String) : Match → Match
  | simple value _ => simple value scope
  | composite columns _ => composite columns scope

/-- Whether a match applies to a data mapper. -/
def appliesTo (request : Match) (mapper : String) : Bool :=
  request.scope.isEmpty || request.scope.contains mapper

/-- The kind of a match, as an entry may name it. -/
inductive Kind
  | simple
  | composite
deriving DecidableEq, Repr

/-- The names of the kinds. -/
def kinds : List (String × Kind) :=
  [("Simple", .simple), ("Composite", .composite)]

/-- The identifier of an entry: a single value or a list of column values. -/
inductive Identifier
  | single (value : Value)
  | columns (pairs : List ColumnValue)
deriving DecidableEq, Repr

/-- A match as an entry of a queue. -/
def toJson : Match → Json
  | simple value scope =>
    .ofFields [("match_id", value.toJson), ("type", .ofString "Simple"),
      ("data_mappers", .ofStrings scope)]
  | composite columns scope =>
    .ofFields
      [("match_id", .array (columns.map ColumnValue.toJson)), ("type", .ofString "Composite"),
      ("data_mappers", .ofStrings scope)]

/-- The identifier that a document holds. A list is held back until it is known to be one of column
values, so all of it has to be readable. -/
def decodeIdentifier? (room : Nat) (value : Json) : Option Identifier :=
  match value with
  | .array items => do
    guard (value.isReadable room)
    return .columns (← items.mapM (ColumnValue.decode? (room - 1)))
  | value => (Value.decode? value).map .single

/-- The match of an entry with the given identifier. A kind may be named, but has to fit. -/
def ofEntry (identifier : Identifier) (kind : Option Kind) (scope : List String) :
    Except Refusal Match :=
  match identifier, kind with
  | .single value, none | .single value, some .simple => .ok (simple value scope)
  | .single _, some .composite => .error (.entry .compositeList)
  | .columns _, some .simple => .error (.entry .simpleValue)
  | .columns [], _ => .error (.entry .someColumn)
  | .columns pairs, _ => .ok (composite pairs scope)

/-- The parts of the entry that a document holds; only the identifier has to be there. -/
def decodeEntry? (room : Nat) (value : Json) :
    Option (Identifier × Option Kind × List String) := do
  let field ← value.fields? room ["match_id", "type", "data_mappers"]
  let identifier ← decodeIdentifier? (room - 1) (← field "match_id")
  let kind ← Json.orNull (Json.variant? .direct (room - 1) kinds) (field "type")
  let scope ← Json.orDefault [] (Json.texts? (room - 1)) (field "data_mappers")
  return (identifier, kind, scope)

/-- The match that a document holds as a queue entry. -/
def decode (room : Nat) (value : Json) : Except Refusal Match :=
  match decodeEntry? room value with
  | some (identifier, kind, scope) => ofEntry identifier kind scope
  | none => .error .shape

/-- The matches that a document holds as a list of queue entries. -/
def decodeList (room : Nat) (value : Json) : Except Refusal (List Match) := do
  (← Refusal.unlessSome (value.items? room)).mapM (decode (room - 1))

/-- The match that a text holds as a queue entry. -/
def read (text : List Text.Symbol) : Except Refusal Match :=
  (Json.Document.ofSymbols text).read (decode Json.depthLimit)

/-- The matches that a text holds as a list of queue entries. -/
def readList (text : List Text.Symbol) : Except Refusal (List Match) :=
  (Json.Document.ofSymbols text).read (decodeList Json.depthLimit)

end Match

end Expunge
