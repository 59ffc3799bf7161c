import Expunge.Mapper
import Expunge.Value

/-!
# Deletion queries

A query selects the records to erase in one partition of a table: those that some group matches. A
simple group gives values for one column, a composite group tuples of values for several columns.
-/

namespace Expunge

/-- The values that are searched for in one column, or the tuples of values that are searched for in
several columns at once. -/
inductive Group
  | simple (column : String) (ids : List Value)
  | composite (columns : List String) (ids : List (List Value))
deriving DecidableEq, Repr

/-- A partition key with the value it has in the partition that a query is for. -/
structure KeyValue where
  key : String
  value : Value
deriving DecidableEq, Repr

/-- A deletion query. -/
structure Query where
  mapper : String
  executor : QueryExecutor
  format : DataFormat
  database : String
  table : String
  columns : List Group
  partitionKeys : List KeyValue
  roleArn : Option String
  deleteOldVersions : Bool
deriving DecidableEq, Repr

namespace Group

/-- A list of values as a document holds it. -/
def valuesToJson (values : List Value) : Json :=
  .array (values.map Value.toJson)

/-- A group as a document holds it. -/
def toJson : Group → Json
  | simple column ids =>
    .ofFields [("type", .ofString "Simple"), ("column", .ofString column),
      ("match_ids", valuesToJson ids)]
  | composite columns ids =>
    .ofFields [("type", .ofString "Composite"), ("columns", .ofStrings columns),
      ("match_ids", .array (ids.map valuesToJson))]

/-- The values that a document holds. -/
def decodeValues? (room : Nat) (value : Json) : Option (List Value) :=
  value.list? room Value.decode?

/-- The kind of group that a tag names: simple or not. A tag that was held back may be a number. -/
def isSimpleTag? (reading : Json.Reading) : Json → Option Bool
  | .string (some name) => [("Simple", true), ("Composite", false)].lookup name
  | value =>
    match reading with
    | .direct => none
    | .heldBack => value.nat?.bind fun n => [(0, true), (1, false)].lookup n

/-- The group with the given tag whose other parts a document holds. -/
def decodeContent? (room : Nat) (isSimple : Bool) (content : Json) : Option Group :=
  if isSimple then do
    let field ← content.fields? room ["column", "match_ids"]
    return .simple (← (← field "column").text?) (← decodeValues? (room - 1) (← field "match_ids"))
  else do
    let field ← content.fields? room ["columns", "match_ids"]
    let columns ← (← field "columns").texts? (room - 1)
    let ids ← (← field "match_ids").list? (room - 1) (decodeValues? (room - 2))
    return .composite columns ids

/-- The group that a document holds: an object in which the member `type` is the tag, or an array
that starts with the tag. All other parts are held back until the tag is known. -/
def decode? (reading : Json.Reading) (room : Nat) : Json → Option Group
  | .object members => do
    guard (0 < room)
    let named ← Json.members? ["type"] members
    let isSimple ← isSimpleTag? reading (← named.lookup "type")
    let content := members.filter fun member => member.1 ≠ some "type"
    guard (Json.membersReadable (room - 1) content)
    decodeContent? room isSimple (.object content)
  | .array (tag :: content) => do
    guard (0 < room && Json.areReadable (room - 1) content)
    decodeContent? room (← isSimpleTag? reading tag) (.array content)
  | _ => none

end Group

namespace KeyValue

/-- A partition key with its value as a document holds it. -/
def toJson (pair : KeyValue) : Json :=
  .ofFields [("key", .ofString pair.key), ("value", pair.value.toJson)]

/-- The partition key with its value that a document holds. -/
def decode? (room : Nat) (value : Json) : Option KeyValue := do
  let field ← value.fields? room ["key", "value"]
  return ⟨← (← field "key").text?, ← Value.decode? (← field "value")⟩

end KeyValue

namespace Query

/-- A query as a document holds it; a missing role is left out. -/
def toJson (query : Query) : Json :=
  .ofFields (
    [("data_mapper_id", .ofString query.mapper),
     ("query_executor", .ofString query.executor.name),
     ("format", .ofString query.format.name),
     ("database", .ofString query.database),
     ("table", .ofString query.table),
     ("columns", .array (query.columns.map Group.toJson)),
     ("partition_keys", .array (query.partitionKeys.map KeyValue.toJson))]
    ++ (query.roleArn.map fun arn => ("role_arn", Json.ofString arn)).toList
    ++ [("delete_old_versions", .bool query.deleteOldVersions)])

/-- The query that a document holds. The role and the last flag may be missing. -/
def decode? (reading : Json.Reading) (room : Nat) (value : Json) : Option Query := do
  let field ← value.fields? room ["data_mapper_id", "query_executor", "format", "database", "table",
    "columns", "partition_keys", "role_arn", "delete_old_versions"]
  return {
    mapper := ← (← field "data_mapper_id").text?
    executor := ← (← field "query_executor").variant? reading (room - 1) QueryExecutor.named
    format := ← (← field "format").variant? reading (room - 1) DataFormat.named
    database := ← (← field "database").text?
    table := ← (← field "table").text?
    columns := ← (← field "columns").list? (room - 1) (Group.decode? reading (room - 2))
    partitionKeys := ← (← field "partition_keys").list? (room - 1) (KeyValue.decode? (room - 2))
    roleArn := ← Json.orNull Json.text? (field "role_arn")
    deleteOldVersions := ← Json.orDefault true Json.bool? (field "delete_old_versions") }

end Query

end Expunge
