import Expunge.Job
import Expunge.Settings.Tree

/-!
# Settings

What a program can be told: how jobs are compiled, where their sources are, and where their queries
go. Settings have defaults, are read off trees and documents, and are checked before a job runs.
-/

namespace Expunge

/-- Where the queries of a job go. -/
inductive Outlet
  /-- Topics in memory, which nobody else reads. -/
  | memory
  /-- Lines on standard output. -/
  | stdout
deriving DecidableEq, Repr

/-- The policies by their names. -/
def FailurePolicy.named : List (String × FailurePolicy) :=
  [("abort", .abort), ("skip", .skip)]

/-- The name of a policy. -/
def FailurePolicy.name : FailurePolicy → String
  | abort => "abort"
  | skip => "skip"

/-- The title of a policy in listings. -/
def FailurePolicy.title : FailurePolicy → String
  | abort => "Abort"
  | skip => "Skip"

/-- The outlets by their names. -/
def Outlet.named : List (String × Outlet) :=
  [("memory", .memory), ("stdout", .stdout)]

/-- The name of an outlet. -/
def Outlet.name : Outlet → String
  | memory => "memory"
  | stdout => "stdout"

/-- The title of an outlet in listings. -/
def Outlet.title : Outlet → String
  | memory => "Memory"
  | stdout => "Stdout"

/-- How jobs are compiled. -/
structure CompilerSettings where
  /-- The number of data mappers that may be compiled at the same time. -/
  concurrency : Nat
  failurePolicy : FailurePolicy
deriving DecidableEq, Repr

/-- Where the sources of jobs are. -/
structure SourceSettings where
  catalogPath : String
  queueDirectory : String
  mappersPath : String
  pageSize : Nat
deriving DecidableEq, Repr

/-- Where the queries of jobs go. -/
structure DeliverySettings where
  outlet : Outlet
  topic : String
  batchSize : Nat
deriving DecidableEq, Repr

/-- All settings. -/
structure Settings where
  compiler : CompilerSettings
  sources : SourceSettings
  delivery : DeliverySettings
deriving DecidableEq, Repr

namespace Settings

/-- The settings of a program that is told nothing. -/
def default : Settings where
  compiler := ⟨4, .abort⟩
  sources := ⟨".data/catalog.json", ".data/queue", ".data/data_mappers.json", 100⟩
  delivery := ⟨.stdout, "queries", 10⟩

/-! ## Trees -/

/-- The names of the compiler settings. -/
def compilerFields : List String := ["concurrency", "failure_policy"]

/-- The names of the source settings. -/
def sourceFields : List String :=
  ["catalog_path", "deletion_queue_dir", "data_mappers_path", "partition_page_size"]

/-- The names of the delivery settings. -/
def deliveryFields : List String := ["backend", "topic", "batch_size"]

/-- The names of the groups of settings. -/
def groupFields : List String := ["compiler", "sources", "delivery"]

/-- Settings as a tree. -/
def toTree (settings : Settings) : Setting :=
  .table
    [("compiler", .table
      [("concurrency", .integer settings.compiler.concurrency),
       ("failure_policy", .text settings.compiler.failurePolicy.name)]),
     ("sources", .table
      [("catalog_path", .text settings.sources.catalogPath),
       ("deletion_queue_dir", .text settings.sources.queueDirectory),
       ("data_mappers_path", .text settings.sources.mappersPath),
       ("partition_page_size", .integer settings.sources.pageSize)]),
     ("delivery", .table
      [("backend", .text settings.delivery.outlet.name),
       ("topic", .text settings.delivery.topic),
       ("batch_size", .integer settings.delivery.batchSize)])]

/-- The settings that a tree spells; every one of them has to be there. -/
def ofTree? (tree : Setting) : Option Settings := do
  let group ← tree.fields? groupFields
  let compiler ← (← group "compiler").fields? compilerFields
  let sources ← (← group "sources").fields? sourceFields
  let delivery ← (← group "delivery").fields? deliveryFields
  return {
    compiler := {
      concurrency := ← (← compiler "concurrency").nat?
      failurePolicy := ← (← compiler "failure_policy").variant? FailurePolicy.named }
    sources := {
      catalogPath := ← (← sources "catalog_path").text?
      queueDirectory := ← (← sources "deletion_queue_dir").text?
      mappersPath := ← (← sources "data_mappers_path").text?
      pageSize := ← (← sources "partition_page_size").nat? }
    delivery := {
      outlet := ← (← delivery "backend").variant? Outlet.named
      topic := ← (← delivery "topic").text?
      batchSize := ← (← delivery "batch_size").nat? } }

/-! ## Documents -/

/-- Settings as a document holds them. -/
def toJson (settings : Settings) : Json :=
  .ofFields
    [("compiler", .ofFields
      [("concurrency", .ofNat settings.compiler.concurrency),
       ("failure_policy", .ofString settings.compiler.failurePolicy.name)]),
     ("sources", .ofFields
      [("catalog_path", .ofString settings.sources.catalogPath),
       ("deletion_queue_dir", .ofString settings.sources.queueDirectory),
       ("data_mappers_path", .ofString settings.sources.mappersPath),
       ("partition_page_size", .ofNat settings.sources.pageSize)]),
     ("delivery", .ofFields
      [("backend", .ofString settings.delivery.outlet.name),
       ("topic", .ofString settings.delivery.topic),
       ("batch_size", .ofNat settings.delivery.batchSize)])]

/-- The settings that a document holds; every one of them has to be there. -/
def decode? (room : Nat) (value : Json) : Option Settings := do
  let group ← value.fields? room groupFields
  let compiler ← (← group "compiler").fields? (room - 1) compilerFields
  let sources ← (← group "sources").fields? (room - 1) sourceFields
  let delivery ← (← group "delivery").fields? (room - 1) deliveryFields
  return {
    compiler := {
      concurrency := ← (← compiler "concurrency").nat?
      failurePolicy := ←
        (← compiler "failure_policy").variant? .direct (room - 2) FailurePolicy.named }
    sources := {
      catalogPath := ← (← sources "catalog_path").text?
      queueDirectory := ← (← sources "deletion_queue_dir").text?
      mappersPath := ← (← sources "data_mappers_path").text?
      pageSize := ← (← sources "partition_page_size").nat? }
    delivery := {
      outlet := ← (← delivery "backend").variant? .direct (room - 2) Outlet.named
      topic := ← (← delivery "topic").text?
      batchSize := ← (← delivery "batch_size").nat? } }

/-! ## Checks -/

/-- What makes settings unusable for a job. -/
inductive Fault
  | noConcurrency
  | noPageSize
  | noBatchSize
  | noTopic
  | noCatalogPath
  | noQueueDirectory
  | noMappersPath
deriving DecidableEq, Repr

namespace Fault

/-- The text of a fault. -/
def message : Fault → String
  | noConcurrency => "Compiler concurrency must be at least 1"
  | noPageSize => "Partition page size must be at least 1"
  | noBatchSize => "Delivery batch size must be at least 1"
  | noTopic => "Delivery topic cannot be empty"
  | noCatalogPath => "Catalog path cannot be empty"
  | noQueueDirectory => "Deletion queue directory cannot be empty"
  | noMappersPath => "Data mappers path cannot be empty"

end Fault

/-- The first fault of settings, in the order in which they are checked. -/
def fault? (settings : Settings) : Option Fault :=
  if settings.compiler.concurrency = 0 then some .noConcurrency
  else if settings.sources.pageSize = 0 then some .noPageSize
  else if settings.delivery.batchSize = 0 then some .noBatchSize
  else if settings.delivery.topic = "" then some .noTopic
  else if settings.sources.catalogPath = "" then some .noCatalogPath
  else if settings.sources.queueDirectory = "" then some .noQueueDirectory
  else if settings.sources.mappersPath = "" then some .noMappersPath
  else none

/-! ## Listing -/

/-- A number as text. -/
private def numberText (n : Nat) : String :=
  String.ofList (Text.ofNat n)

/-- Settings as lines for a reader. -/
def listing (settings : Settings) : List String :=
  ["Erasure Configuration:",
   "======================",
   "Compiler concurrency: " ++ numberText settings.compiler.concurrency,
   "Failure policy: " ++ settings.compiler.failurePolicy.title,
   "Catalog: " ++ settings.sources.catalogPath,
   "Deletion queue directory: " ++ settings.sources.queueDirectory,
   "Data mappers: " ++ settings.sources.mappersPath,
   "Partition page size: " ++ numberText settings.sources.pageSize,
   "Delivery backend: " ++ settings.delivery.outlet.title,
   "Delivery topic: " ++ settings.delivery.topic,
   "Delivery batch size: " ++ numberText settings.delivery.batchSize]

end Settings

end Expunge
