import Expunge.Classification
import Expunge.Source.Basic

/-!
# Expansion over partitions

The groups of a data mapper are searched for in every partition of its table: each partition gets a
query of its own, with the partition's values cast to the types of the keys.
-/

namespace Expunge.Expansion

/-- The keys of a table with the values they have in a partition, cast to the types of the keys. -/
def keyValues (table : Table) (row : Partition) : Except CompileError (List KeyValue) :=
  if row.values.length ≠ table.partitionKeys.length then
    .error (.partitionMismatch table.database table.name table.partitionKeys.length
      row.values.length)
  else
    (table.partitionKeys.zip row.values).mapM fun (key, value) =>
      match Column.cast (.text value) key.name table.partitionKeys with
      | .ok typed => .ok ⟨key.name, typed⟩
      | .error error => .error (.column error)

/-- The query of a data mapper for the records of a table with the given key values. -/
def query (mapper : Mapper) (table : Table) (groups : List Group) (keys : List KeyValue) :
    Query where
  mapper := mapper.id
  executor := mapper.executor
  format := mapper.format
  database := table.database
  table := table.name
  columns := groups
  partitionKeys := keys
  roleArn := mapper.roleArn
  deleteOldVersions := mapper.deletesOldVersions

/-- One query for each partition of a feed. The first failure ends the run; nothing after it is
taken from the feed. -/
def overFeed (mapper : Mapper) (table : Table) (groups : List Group) : Feed → Run (List Query)
  | [] => pure []
  | .page :: rest => do
    Run.emit .pageFetch
    overFeed mapper table groups rest
  | .fault error :: _ => Run.fail (.source error)
  | .row row :: rest => do
    let keys ← Run.ofExcept (keyValues table row)
    let queries ← overFeed mapper table groups rest
    return query mapper table groups keys :: queries

/-- The queries for a data mapper's groups: none without groups, one if the table has no partition
keys, otherwise one for each partition. The catalog is asked only in the last case. -/
def expand (catalog : Catalog) (mapper : Mapper) (table : Table) (groups : List Group) :
    Run (List Query) :=
  if groups.isEmpty then pure []
  else if table.isPartitioned then do
    Run.emit (.partitionListing table.database table.name)
    overFeed mapper table groups (catalog.partitions table.database table.name)
  else pure [query mapper table groups []]

end Expunge.Expansion
