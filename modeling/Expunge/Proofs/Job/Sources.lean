import Expunge.Proofs.Expansion
import Expunge.Proofs.Job.Accounting
import Expunge.Proofs.Job.Coverage
import Expunge.Source.File

/-!
# The same job from files and from memory

Two catalogs agree if they answer for every pair of names with the same entry or the same error
(`Catalog.AgreesWith`). A catalog file agrees with a store that its entries were loaded into from
the last to the first, whatever the sizes of their pages are. A job comes to the same over catalogs
that agree, since of a feed it sees only what is delivered (`Expansion.outcome_overFeed`), and so
over files as over what the files hold (`files_agree_with_memory`).
-/

namespace Expunge

namespace Catalog

/-- Two catalogs answer for every pair of names with the same entry, or with the same error. -/
def AgreesWith (catalog other : Catalog) : Prop :=
  ∀ database name, ∃ answer,
    catalog.AnswersWith database name answer ∧ other.AnswersWith database name answer

theorem AgreesWith.table_eq {catalog other : Catalog} (h : catalog.AgreesWith other)
    (database name : String) : catalog.table database name = other.table database name := by
  obtain ⟨answer, hcatalog, hother⟩ := h database name
  rw [hcatalog.table, hother.table]

theorem AgreesWith.delivered_eq {catalog other : Catalog} (h : catalog.AgreesWith other)
    (database name : String) :
    (catalog.partitions database name).delivered = (other.partitions database name).delivered := by
  obtain ⟨answer, hcatalog, hother⟩ := h database name
  rw [hcatalog.partitions, hother.partitions]

/-- The catalog of a file answers with the first entry of its document that has the names. -/
theorem answersWith_ofFile {files : Files} {path : String} {entries : List CatalogEntry}
    (h : readCatalog files path = .ok entries) (pageSize : Nat) (database name : String) :
    (ofFile files path pageSize).AnswersWith database name
      (CatalogEntry.find entries database name) := by
  have hentries := answersWith_ofEntries pageSize entries database name
  refine ⟨?_, ?_⟩
  · rw [← hentries.table]
    simp only [ofFile, h]
    rfl
  · rw [← hentries.partitions]
    simp only [ofFile, h]

/-- The catalog of a store answers with the last entry that has the names among those loaded. -/
theorem answersWith_ofList (loaded : List CatalogEntry) (pageSize : Nat) (database name : String) :
    ((TableStore.ofList loaded).catalog pageSize).AnswersWith database name
      (CatalogEntry.find loaded.reverse database name) := by
  rw [← TableStore.find_ofList]
  exact answersWith_ofEntries pageSize _ database name

/-- Where no two entries have the same names, a catalog file agrees with a store that its entries
were loaded into in whatever order. -/
theorem agreesWith_ofFile_ofList {files : Files} {path : String}
    {entries loaded : List CatalogEntry} (h : readCatalog files path = .ok entries)
    (hnodup : (entries.map CatalogEntry.names).Nodup) (hloaded : loaded.Perm entries)
    (pageSize storePageSize : Nat) :
    (ofFile files path pageSize).AgreesWith ((TableStore.ofList loaded).catalog storePageSize) := by
  intro database name
  have hstore := answersWith_ofList loaded storePageSize database name
  rw [CatalogEntry.find_perm ((List.reverse_perm loaded).trans hloaded) hnodup] at hstore
  exact ⟨_, answersWith_ofFile h pageSize database name, hstore⟩

end Catalog

/-! ## Compiling over catalogs that agree -/

section
variable {catalog other : Catalog} (h : catalog.AgreesWith other)
include h

theorem Expansion.outcome_expand_eq (mapper : Mapper) (table : Table) (groups : List Group) :
    (expand catalog mapper table groups).outcome = (expand other mapper table groups).outcome := by
  rw [expand, expand]
  split
  · rfl
  · split
    · simp only [Run.outcome_bind, Expansion.outcome_overFeed, h.delivered_eq]
    · rfl

namespace Job

theorem outcome_compileMapper_eq (requests : List Match) (mapper : Mapper) :
    (compileMapper catalog requests mapper).outcome =
      (compileMapper other requests mapper).outcome := by
  rw [compileMapper, compileMapper]
  split
  · simp only [Run.outcome_bind, Run.outcome_ofExcept, h.table_eq, Expansion.outcome_expand_eq h]
  · rfl

theorem outcomeOf_eq (requests : List Match) (item : Except SourceError MapperRecord) :
    outcomeOf catalog requests item = outcomeOf other requests item := by
  cases item with
  | error error => rfl
  | ok record =>
    rw [outcomeOf, outcomeOf]
    cases Mapper.ofRecord record with
    | error error => rfl
    | ok mapper => exact outcome_compileMapper_eq h requests mapper

/-- The items of a registry come to the same report or error over catalogs that agree. -/
theorem outcome_compileItems_eq (policy : FailurePolicy) (requests : List Match) (report : Report)
    (registry : Registry) :
    (compileItems policy catalog requests report registry).outcome =
      (compileItems policy other requests report registry).outcome := by
  induction registry generalizing report with
  | nil => rfl
  | cons item rest ih =>
    simp only [outcome_compileItems_cons, outcome_compileItem, outcomeOf_eq h, ih]

end Job

end

namespace Job

/-- Whatever the policy is, and however many data mappers are under way at the same time, a job
comes to the same report or error over both sources. -/
def SameOutcome (sources others : Sources) (job : String) : Prop :=
  ∀ policy, (generate policy sources job).outcome = (generate policy others job).outcome ∧
    ∀ bound bound' run other, Yields policy bound sources job run →
      Yields policy bound' others job other → run.outcome = other.outcome

/-- Sources with catalogs that agree lead to the same report or error if they hold the same data
mappers and the same queue of the job. -/
theorem sameOutcome_of_agreesWith {sources others : Sources} {job : String}
    (hcatalog : sources.catalog.AgreesWith others.catalog)
    (hqueue : sources.queue job = others.queue job) (hmappers : sources.mappers = others.mappers) :
    SameOutcome sources others job := by
  intro policy
  have hgenerate :
      (generate policy sources job).outcome = (generate policy others job).outcome := by
    simp only [generate, Run.outcome_bind, hqueue, hmappers, outcome_compileItems_eq hcatalog]
  refine ⟨hgenerate, ?_⟩
  intro bound bound' run other hrun hother
  rw [outcome_eq_of_yields hrun, outcome_eq_of_yields hother, hgenerate]

end Job

/-! ## Jobs over files -/

theorem Registry.ofFile_of_ok {files : Files} {path : String} {records : List MapperRecord}
    (h : readRecords files path = .ok records) : ofFile files path = ofRecords records := by
  rw [ofFile, h]
  rfl

namespace Job

/-- A catalog file answers as a store does that its entries were loaded into from the last to the
first: with the first entry that has the names, or else by saying that there is no such table. And
where no two entries have the same names, a job comes to the same report or error over files as over
sources that hold what the files do, whatever order the tables were loaded in. -/
theorem files_agree_with_memory {files : Files} {path : String} {entries : List CatalogEntry}
    (h : readCatalog files path = .ok entries) :
    (∀ pageSize storePageSize database name,
      (Catalog.ofFile files path pageSize).AnswersWith database name
          (CatalogEntry.find entries database name) ∧
        ((TableStore.ofList entries.reverse).catalog storePageSize).AnswersWith database name
          (CatalogEntry.find entries database name)) ∧
    ((entries.map CatalogEntry.names).Nodup → ∀ loaded : List CatalogEntry, loaded.Perm entries →
      ∀ (directory registry job : String) (requests : List Match) (queues : QueueStore)
        (records : List MapperRecord),
        (QueueDirectory.mk directory).entries files job = .ok requests →
        queues.entries job = .ok requests → readRecords files registry = .ok records →
        ∀ pageSize storePageSize,
          SameOutcome (.ofFiles files path pageSize directory registry)
            (memorySources (.ofList loaded) storePageSize queues records) job) := by
  refine ⟨?_, ?_⟩
  · intro pageSize storePageSize database name
    have hstore := Catalog.answersWith_ofList entries.reverse storePageSize database name
    rw [List.reverse_reverse] at hstore
    exact ⟨Catalog.answersWith_ofFile h pageSize database name, hstore⟩
  · intro hnodup loaded hloaded directory registry job requests queues records hqueue hqueues
      hrecords pageSize storePageSize
    refine sameOutcome_of_agreesWith ?_ ?_ ?_
    · exact Catalog.agreesWith_ofFile_ofList h hnodup hloaded pageSize storePageSize
    · exact hqueue.trans hqueues.symm
    · exact Registry.ofFile_of_ok hrecords

/-! A catalog file that lists a table twice, and a job over one that does not: its tables are loaded
in the other order, and the pages of partitions are of different sizes. -/

namespace Clinics

/-- The visits by year. -/
def visits : CatalogEntry :=
  ⟨⟨"clinic", "visits", [⟨"name", "string"⟩], [⟨"year", "int"⟩]⟩,
    [⟨["2023"]⟩, ⟨["2024"]⟩, ⟨["2025"]⟩]⟩

/-- The visits as they were described before. -/
def oldVisits : CatalogEntry :=
  ⟨⟨"clinic", "visits", [⟨"name", "int"⟩], []⟩, []⟩

/-- The staff. -/
def staff : CatalogEntry :=
  ⟨⟨"clinic", "staff", [⟨"name", "string"⟩], []⟩, []⟩

/-- A table with its partitions as a document holds it. -/
def describe (entry : CatalogEntry) : Json :=
  .ofFields
    [("database", .ofString entry.table.database),
     ("name", .ofString entry.table.name),
     ("columns", .array (entry.table.columns.map Column.toJson)),
     ("partition_keys", .array (entry.table.partitionKeys.map Column.toJson)),
     ("partitions", .array (entry.partitions.map Partition.toJson))]

/-- The records of the registry. -/
def records : List MapperRecord :=
  [⟨"visits", "athena", ["name"], "json", "glue", "clinic", "visits", none, none⟩,
    ⟨"staff", "athena", ["name"], "parquet", "glue", "clinic", "staff", none, some false⟩]

/-- The queue. -/
def requests : List Match :=
  [.simple (.text "A") [], .simple (.integer 7) ["staff"]]

/-- The file that holds a document. -/
def file (document : Json) : FileNode :=
  .file (document.writeChars.map some)

/-- The file of a catalog. -/
def catalogFile (entries : List CatalogEntry) : FileNode :=
  file (.ofFields [("tables", .array (entries.map describe))])

/-- The files. -/
def files : Files :=
  FileTree.read ⟨[(["catalog.json"], catalogFile [visits, staff]),
    (["twice.json"], catalogFile [visits, staff, oldVisits]),
    (["mappers.json"], file (.array (records.map MapperRecord.toJson))),
    (["queue"], .directory),
    (["queue", "job.json"], file (.array (requests.map Match.toJson)))]⟩ []

/-- The queue in memory. -/
def queues : QueueStore :=
  ⟨[("job", requests)]⟩

end Clinics

theorem files_agree_with_memory_clinics :
    (∀ database name,
      (Catalog.ofFile Clinics.files "twice.json" 2).AnswersWith database name
          (CatalogEntry.find [Clinics.visits, Clinics.staff, Clinics.oldVisits] database name) ∧
        ((TableStore.ofList [Clinics.oldVisits, Clinics.staff, Clinics.visits]).catalog
            1).AnswersWith database name
          (CatalogEntry.find [Clinics.visits, Clinics.staff, Clinics.oldVisits] database name)) ∧
      SameOutcome (.ofFiles Clinics.files "catalog.json" 2 "queue" "mappers.json")
        (memorySources (.ofList [Clinics.staff, Clinics.visits]) 1 Clinics.queues Clinics.records)
        "job" := by
  have htwice : readCatalog Clinics.files "twice.json" =
      .ok [Clinics.visits, Clinics.staff, Clinics.oldVisits] := by decide +kernel
  have honce : readCatalog Clinics.files "catalog.json" =
      .ok [Clinics.visits, Clinics.staff] := by decide +kernel
  have hqueue : (QueueDirectory.mk "queue").entries Clinics.files "job" =
      .ok Clinics.requests := by decide +kernel
  have hrecords : readRecords Clinics.files "mappers.json" = .ok Clinics.records := by
    decide +kernel
  exact ⟨(files_agree_with_memory htwice).1 2 1,
    (files_agree_with_memory honce).2 (by decide) _ (.swap _ _ _) "queue" "mappers.json" "job"
      Clinics.requests Clinics.queues Clinics.records hqueue rfl hrecords 2 1⟩

end Job

end Expunge
