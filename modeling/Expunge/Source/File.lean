import Expunge.FileTree
import Expunge.Source.Memory

/-!
# Sources kept in files

A catalog, queues and a registry as JSON files. A file is read anew for every request, so a request
sees what the file holds then. A catalog file lists tables with their partitions; a queue is a file
named for its job in a directory of queues; a registry is a list of records.
-/

namespace Expunge

namespace CatalogEntry

/-- The entry that a document holds: a table and, beside its fields, its partitions. All other
members are held back until the table is read off them, so all of them have to be readable. -/
def decode? (room : Nat) : Json → Option CatalogEntry
  | .object members => do
    guard (0 < room)
    let named ← Json.members? ["partitions"] members
    let rows? := Json.list? (room - 1) (Partition.decode? (room - 2))
    let partitions ← Json.orDefault [] rows? (named.lookup "partitions")
    let others := members.filter fun member => member.1 ≠ some "partitions"
    guard (Json.membersReadable (room - 1) others)
    return ⟨← Table.decode? room (.object others), partitions⟩
  | _ => none

/-- The entries that a document holds as a catalog. -/
def decodeCatalog? (room : Nat) (value : Json) : Option (List CatalogEntry) := do
  let field ← value.fields? room ["tables"]
  Json.orDefault [] (Json.list? (room - 1) (CatalogEntry.decode? (room - 2))) (field "tables")

end CatalogEntry

/-- Reads a document off a file. -/
def readDocument {α : Type} (files : Files) (path : String)
    (read : Json.Document → Except Refusal α) : Except SourceError α :=
  match files path with
  | .error fault => .error (.unreadable path fault)
  | .ok content => (read (.ofSymbols content)).mapError (.refused path)

/-- The entries of a catalog file. -/
def readCatalog (files : Files) (path : String) : Except SourceError (List CatalogEntry) :=
  readDocument files path (·.readShape (CatalogEntry.decodeCatalog? Json.depthLimit))

/-- The catalog of a file. The first entry that describes a table counts. -/
def Catalog.ofFile (files : Files) (path : String) (pageSize : Nat) : Catalog where
  table database table := do
    (Catalog.ofEntries pageSize (← readCatalog files path)).table database table
  partitions database table :=
    match readCatalog files path with
    | .ok entries => (Catalog.ofEntries pageSize entries).partitions database table
    | .error error => .failed error

/-- Queues in a directory. -/
structure QueueDirectory where
  path : String
deriving DecidableEq, Repr

namespace QueueDirectory

/-- Whether the text `..` occurs in a text. -/
def hasDoubleDot : List Char → Bool
  | '.' :: '.' :: _ => true
  | _ :: rest => hasDoubleDot rest
  | [] => false

/-- Whether a job may name a file: nothing in the name leads to another directory, and the file is
not a hidden one. -/
def isValidJob (job : String) : Bool :=
  let name := job.toList
  !name.isEmpty && !name.contains '/' && !name.contains '\\' && !hasDoubleDot name
    && name.head? ≠ some '.'

/-- The path of a job's queue. -/
def jobPath (directory : QueueDirectory) (job : String) : Except SourceError String :=
  if isValidJob job then .ok (FileTree.join directory.path (job ++ ".json"))
  else .error (.invalidJobId job)

/-- The matches in a job's queue. A job whose file does not exist has no queue. -/
def entries (directory : QueueDirectory) (files : Files) (job : String) :
    Except SourceError (List Match) := do
  let path ← directory.jobPath job
  match readDocument files path (·.read (Match.decodeList Json.depthLimit)) with
  | .error (.unreadable _ .notFound) => .error (.jobNotFound job)
  | outcome => outcome

end QueueDirectory

/-- The records of a registry file. -/
def readRecords (files : Files) (path : String) : Except SourceError (List MapperRecord) :=
  readDocument files path
    (·.readShape (Json.list? Json.depthLimit (MapperRecord.decode? (Json.depthLimit - 1))))

/-- The registry of a file. If the file cannot be read, that is all it delivers. -/
def Registry.ofFile (files : Files) (path : String) : Registry :=
  match readRecords files path with
  | .ok records => records.map .ok
  | .error error => [.error error]

/-- The sources in a catalog file, a directory of queues and a registry file. -/
def Sources.ofFiles (files : Files) (catalog : String) (pageSize : Nat) (queues registry : String) :
    Sources where
  catalog := .ofFile files catalog pageSize
  queue := (QueueDirectory.mk queues).entries files
  mappers := .ofFile files registry

end Expunge
