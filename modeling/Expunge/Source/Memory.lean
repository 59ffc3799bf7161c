import Expunge.Source.Basic

/-!
# Sources held in memory

A store of tables, in which a later table replaces an earlier one of the same names, and a store of
queues by job.
-/

namespace Expunge

/-- A table with its partitions. -/
structure CatalogEntry where
  table : Table
  partitions : List Partition
deriving DecidableEq, Repr

namespace CatalogEntry

/-- Whether an entry describes the table with the given names. -/
def describes (database table : String) (entry : CatalogEntry) : Bool :=
  entry.table.database = database && entry.table.name = table

/-- The first entry that describes the table with the given names. -/
def find (entries : List CatalogEntry) (database table : String) :
    Except SourceError CatalogEntry :=
  match entries.find? (describes database table) with
  | some entry => .ok entry
  | none => .error (.tableNotFound database table)

end CatalogEntry

namespace Catalog

/-- The catalog of a list of entries, of which the first that describes a table counts. -/
def ofEntries (pageSize : Nat) (entries : List CatalogEntry) : Catalog where
  table database table := (CatalogEntry.find entries database table).map (·.table)
  partitions database table :=
    match CatalogEntry.find entries database table with
    | .ok entry => .paged pageSize entry.partitions
    | .error error => .failed error

/-- The number of partitions in a page unless another one is asked for. -/
def defaultPageSize : Nat := 100

end Catalog

/-- Tables that are loaded one after the other. -/
structure TableStore where
  /-- The entries, the newest first. -/
  entries : List CatalogEntry
deriving DecidableEq, Repr

namespace TableStore

/-- A store without tables. -/
def empty : TableStore :=
  ⟨[]⟩

/-- A store with one more table, which replaces an earlier one with the same names. -/
def insert (store : TableStore) (entry : CatalogEntry) : TableStore :=
  ⟨entry :: store.entries.filter fun other =>
    !other.describes entry.table.database entry.table.name⟩

/-- A store with the given tables, loaded in order. -/
def ofList (entries : List CatalogEntry) : TableStore :=
  entries.foldl insert empty

/-- The catalog of a store. -/
def catalog (store : TableStore) (pageSize : Nat) : Catalog :=
  .ofEntries pageSize store.entries

end TableStore

/-- Queues of matches by job. -/
structure QueueStore where
  queues : List (String × List Match)
deriving DecidableEq, Repr

namespace QueueStore

/-- The matches of a job; a job without a queue has none. -/
def entries (store : QueueStore) (job : String) : Except SourceError (List Match) :=
  .ok ((store.queues.lookup job).getD [])

end QueueStore

namespace Registry

/-- The registry that delivers the given records. -/
def ofRecords (records : List MapperRecord) : Registry :=
  records.map .ok

end Registry

end Expunge
