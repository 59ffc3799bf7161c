import Expunge.Column.Basic
import Expunge.Json.Decode

/-!
# Tables

A table as a catalog describes it: its columns and the keys it is partitioned by, both with the
texts of their types. A partition gives one value, as text, for each key.
-/

namespace Expunge

/-- The description of a table. -/
structure Table where
  database : String
  name : String
  columns : List Column
  partitionKeys : List Column
deriving DecidableEq, Repr

/-- The values of a table's partition keys, in the order of the keys. -/
structure Partition where
  values : List String
deriving DecidableEq, Repr

namespace Column

/-- A column as a document holds it. -/
def toJson (column : Column) : Json :=
  .ofFields [("name", .ofString column.name), ("type", .ofString column.type)]

/-- The column that a document holds. -/
def decode? (room : Nat) (value : Json) : Option Column := do
  let field ← value.fields? room ["name", "type"]
  return ⟨← (← field "name").text?, ← (← field "type").text?⟩

end Column

namespace Table

/-- A table with no columns. -/
def new (database name : String) : Table :=
  ⟨database, name, [], []⟩

/-- A table with one more column. -/
def withColumn (table : Table) (name type : String) : Table :=
  { table with columns := table.columns ++ [⟨name, type⟩] }

/-- A table with one more partition key. -/
def withPartitionKey (table : Table) (name type : String) : Table :=
  { table with partitionKeys := table.partitionKeys ++ [⟨name, type⟩] }

/-- Whether a table has partition keys. -/
def isPartitioned (table : Table) : Bool :=
  !table.partitionKeys.isEmpty

/-- A table as a document holds it. -/
def toJson (table : Table) : Json :=
  .ofFields
    [("database", .ofString table.database),
     ("name", .ofString table.name),
     ("columns", .array (table.columns.map Column.toJson)),
     ("partition_keys", .array (table.partitionKeys.map Column.toJson))]

/-- The table that a document holds; partition keys may be missing. -/
def decode? (room : Nat) (value : Json) : Option Table := do
  let field ← value.fields? room ["database", "name", "columns", "partition_keys"]
  let columns? := Json.list? (room - 1) (Column.decode? (room - 2))
  return {
    database := ← (← field "database").text?
    name := ← (← field "name").text?
    columns := ← columns? (← field "columns")
    partitionKeys := ← Json.orDefault [] columns? (field "partition_keys") }

end Table

namespace Partition

/-- A partition as a document holds it. -/
def toJson (row : Partition) : Json :=
  .ofStrings row.values

/-- The partition that a document holds. -/
def decode? (room : Nat) (value : Json) : Option Partition :=
  (value.texts? room).map .mk

end Partition

end Expunge
