import Expunge.Program
import Expunge.Proofs.Delivery
import Expunge.Proofs.Job.Typing

/-!
# What compiling a job prints

The command that compiles a job prints the whole job or nothing (`run_compile`): no line is written
before the job has a report, and then the lines are read back as batches that cut the queries of the
report into pieces. Numbers are finite when they are printed because those of a queue kept in a file
are, and no other number gets into a query but by a cast (`Job.isFinite_of_generate`).
-/

namespace Expunge

/-! ## Finite values -/

/-- The values of a well-typed query are finite. -/
theorem Query.IsWellTyped.isFinite {query : Query} {record : MapperRecord} {table : Table}
    (h : query.IsWellTyped record table) {value : Value} (hvalue : value ∈ query.values) :
    value.IsFinite := by
  rcases List.mem_append.1 hvalue with hvalue | hvalue
  · obtain ⟨group, hgroup, hvalue⟩ := List.mem_flatMap.1 hvalue
    cases group with
    | simple column ids =>
      obtain ⟨_, _, htyped⟩ := h.simple column ids hgroup
      exact (htyped value hvalue).isFinite
    | composite columns ids =>
      obtain ⟨_, htyped⟩ := h.composite columns ids hgroup
      obtain ⟨tuple, htuple, hvalue⟩ := List.mem_flatten.1 hvalue
      obtain ⟨_, _, hcolumn⟩ := Outcome.exists_left_of_forall₂ (htyped tuple htuple) hvalue
      exact hcolumn.isFinite
  · obtain ⟨pair, hpair, rfl⟩ := List.mem_map.1 hvalue
    exact (h.keys pair hpair).2.isFinite

/-- The matches in a queue of a directory hold finite values only. -/
theorem QueueDirectory.isFinite_of_entries {directory : QueueDirectory} {files : Files}
    {job : String} {requests : List Match} (h : directory.entries files job = .ok requests) :
    ∀ request ∈ requests, ∀ value ∈ request.values, value.IsFinite := by
  obtain ⟨path, _, h⟩ := Outcome.bind_eq_ok_iff.1 h
  split at h
  · cases h
  · rw [readDocument] at h
    split at h
    · cases h
    · have hread := Outcome.mapError_eq_ok_iff.1 h
      exact Match.isFinite_of_decodeList (Json.Document.read_eq_ok hread)

/-- The values in the queries of a report are finite if those of the matches are. -/
theorem Job.isFinite_of_generate {policy : FailurePolicy} {sources : Sources} {job : String}
    {report : Report}
    (hqueue : ∀ requests, sources.queue job = .ok requests →
      ∀ request ∈ requests, ∀ value ∈ request.values, value.IsFinite)
    (h : (generate policy sources job).outcome = .ok report) :
    ∀ query ∈ report.queries, ∀ value ∈ query.values, value.IsFinite := by
  obtain ⟨requests, hrequests, h⟩ := generate_eq_ok_iff.1 h
  intro query hquery value hvalue
  obtain ⟨_, _, _, _, _, _, _, hmapper, _, hgroups, _, _, hfor⟩ := exists_of_mem_queries h hquery
  obtain ⟨_, htyped⟩ := isWellTyped_of_classify (hqueue requests hrequests) hmapper hgroups hfor
  exact htyped.isFinite hvalue

/-! ## Printed queries -/

/-- The numerals of a query's floats are read correctly rounded. -/
def Query.IsReadNearest (query : Query) : Prop :=
  ∀ x, .float x ∈ query.values → (Numeral.ofBinary64 x).IsReadNearest

/-- Batches of queries that are finite and read correctly rounded lose no number. -/
theorem IsCut.isExact {job : String} {size : Nat} {queries : List Query} {batches : List Batch}
    (h : IsCut job size queries batches)
    (hfinite : ∀ query ∈ queries, ∀ value ∈ query.values, value.IsFinite)
    (hnearest : ∀ query ∈ queries, query.IsReadNearest) :
    ∀ batch ∈ batches, batch.IsExact := by
  intro batch hbatch query hquery value hvalue
  have hmem : query ∈ queries := by
    rw [← h.complete]
    exact List.mem_flatMap.2 ⟨batch, hbatch, hquery⟩
  exact Value.isExact_of_isFinite (hfinite query hmem value hvalue) fun x hx =>
    hnearest query hmem x (hx ▸ hvalue)

/-- Bytes that print the queries of a job: cut at line feeds, they are a line for each of the
batches that cut the queries into pieces, which is read as the batch; nothing follows the last
line. -/
def Prints (output : List UInt8) (job : String) (size : Nat) (queries : List Query) : Prop :=
  ∃ lines batches, output.splitOn 10 = lines ++ [[]] ∧
    List.Forall₂ (fun line batch => LineOutput.readLine line = .ok (.queryBatch batch))
      lines batches ∧
    IsCut job size queries batches

/-- The lines of the batches that cut the queries of a job print them. -/
theorem IsCut.prints {job : String} {size : Nat} {queries : List Query} {batches : List Batch}
    (h : IsCut job size queries batches) (hexact : ∀ batch ∈ batches, batch.IsExact) :
    Prints ((batches.map Message.queryBatch).flatMap LineOutput.lineBytes) job size queries := by
  have hread : List.Forall₂
      (fun line batch => LineOutput.readLine line = .ok (.queryBatch batch))
      ((batches.map Message.queryBatch).map fun message => LineOutput.bytes message.toLine)
      batches := by
    rw [List.forall₂_map_left_iff, List.forall₂_map_left_iff, List.forall₂_same]
    intro batch hbatch
    have hbatch : (Message.queryBatch batch).batch.IsExact := hexact batch hbatch
    rw [LineOutput.readLine_toLine hbatch]
  exact ⟨_, batches, LineOutput.splitOn_flatMap_lineBytes _, hread, h⟩

/-! ## The command -/

/-- Settings without a fault ask for batches that hold queries. -/
theorem Settings.one_le_batchSize {settings : Settings} (h : settings.fault? = none) :
    1 ≤ settings.delivery.batchSize := by
  by_contra hzero
  have hzero : settings.delivery.batchSize = 0 := by omega
  rw [fault?] at h
  split_ifs at h

namespace Program

/-- Standard output takes all lines, one for every batch. -/
theorem deliver_of_stdout {settings : DeliverySettings} {job : String} {queries : List Query}
    (houtlet : settings.outlet = .stdout) :
    deliver settings job queries =
      ⟨((Delivery.batches job settings.batchSize queries).map Message.queryBatch).flatMap
        LineOutput.lineBytes, .success⟩ := by
  simp only [deliver, houtlet, Delivery.deliver_unlimited, List.flatMap_map]

section
variable {environment : Environment} {settings : Settings} {job : String}

theorem compile_of_error {cause : CompileError}
    (h : (Job.generate settings.compiler.failurePolicy (sources environment settings.sources)
      job).outcome = .error cause) :
    compile environment settings job = .failed (.compilation job cause) := by
  unfold compile
  simp only [h]

theorem compile_of_ok {report : Report}
    (h : (Job.generate settings.compiler.failurePolicy (sources environment settings.sources)
      job).outcome = .ok report) :
    compile environment settings job = deliver settings.delivery job report.queries := by
  unfold compile
  simp only [h]

end

/-- A command that compiles a job for standard output prints nothing and fails if the settings are
faulty or the job comes to no report. Otherwise it succeeds and prints the queries of the report,
which are read back from what it printed. -/
theorem run_compile {environment : Environment} {words : List String} {invocation : Invocation}
    {job : String} {settings : Settings} (hparse : CommandLine.parse words = .ok invocation)
    (hcommand : invocation.command = .compile job)
    (hsettings : environment.settings? invocation.settingsPath = some settings)
    (houtlet : settings.delivery.outlet = .stdout) :
    (∀ fault, settings.fault? = some fault →
      run environment words = ⟨[], .failure (.invalidSettings fault)⟩) ∧
    (settings.fault? = none → ∀ cause,
      (Job.generate settings.compiler.failurePolicy (sources environment settings.sources)
        job).outcome = .error cause →
      run environment words = ⟨[], .failure (.compilation job cause)⟩) ∧
    (settings.fault? = none → ∀ report,
      (Job.generate settings.compiler.failurePolicy (sources environment settings.sources)
        job).outcome = .ok report →
      ∃ output, run environment words = ⟨output, .success⟩ ∧
        ((∀ query ∈ report.queries, query.IsReadNearest) →
          Prints output job settings.delivery.batchSize report.queries)) := by
  have hrun : run environment words = executeChecked environment settings (.compile job) := by
    simp only [run, hparse, runInvocation, hsettings, hcommand]
  rw [hrun]
  refine ⟨?_, ?_, ?_⟩
  · intro fault hfault
    simp only [executeChecked, hfault, Outcome.failed]
  · intro hvalid cause hcause
    simp only [executeChecked, hvalid, execute, compile_of_error hcause, Outcome.failed]
  · intro hvalid report hreport
    have hcompile : executeChecked environment settings (.compile job) =
        deliver settings.delivery job report.queries := by
      simp only [executeChecked, hvalid, execute, compile_of_ok hreport]
    have hcut : IsCut job settings.delivery.batchSize report.queries _ :=
      Delivery.isCut_batches (Settings.one_le_batchSize hvalid)
    have hfinite : ∀ query ∈ report.queries, ∀ value ∈ query.values, value.IsFinite :=
      Job.isFinite_of_generate (fun _ => QueueDirectory.isFinite_of_entries) hreport
    rw [hcompile, deliver_of_stdout houtlet]
    exact ⟨_, rfl, fun hnearest => hcut.prints (hcut.isExact hfinite hnearest)⟩

/-! A job with a float and with a text that has quotes and a line feed in it, whose two queries are
printed in a batch each. -/

namespace Doses

/-- A table of doses by year. -/
def table : Table :=
  ⟨"lab", "doses", [⟨"name", "string"⟩, ⟨"dose", "double"⟩], [⟨"year", "int"⟩]⟩

/-- The document of the table with its partitions. -/
def catalog : Json :=
  .ofFields [("tables", .array [.ofFields
    [("database", .ofString table.database),
     ("name", .ofString table.name),
     ("columns", .array (table.columns.map Column.toJson)),
     ("partition_keys", .array (table.partitionKeys.map Column.toJson)),
     ("partitions", .array [Partition.toJson ⟨["2024"]⟩, Partition.toJson ⟨["2025"]⟩])]])]

/-- The document of the registry. -/
def mappers : Json :=
  .array [MapperRecord.toJson
    ⟨"m", "athena", ["name", "dose"], "json", "glue", "lab", "doses", none, none⟩]

/-- The document of the queue. -/
def queue : Json :=
  .array [Match.toJson (.simple (.text "1.5") []),
    Match.toJson (.composite [⟨"name", .text "a \"b\"\n"⟩] [])]

/-- The file that holds a document. -/
def file (document : Json) : FileNode :=
  .file (document.writeChars.map some)

/-- The surroundings of the program: the files in their default places, and a variable that makes
batches of one query. -/
def environment : Environment where
  files := ⟨[([".data"], .directory),
    ([".data", "catalog.json"], file catalog),
    ([".data", "data_mappers.json"], file mappers),
    ([".data", "queue"], .directory),
    ([".data", "queue", "job.json"], file queue)]⟩
  directory := []
  vars := [("ERASURE__DELIVERY__BATCH_SIZE", "1")]

/-- The settings of the program. -/
def settings : Settings :=
  { Settings.default with delivery := { Settings.default.delivery with batchSize := 1 } }

/-- The float 1.5. -/
def oneAndHalf : Binary64 :=
  ⟨false, 4609434218613702656⟩

/-- The query of a partition. -/
def query (year : Int64) : Query where
  mapper := "m"
  executor := .athena
  format := .json
  database := "lab"
  table := "doses"
  columns := [.simple "name" [.text "1.5"], .simple "dose" [.float oneAndHalf],
    .composite ["name"] [[.text "a \"b\"\n"]]]
  partitionKeys := [⟨"year", .integer year⟩]
  roleArn := none
  deleteOldVersions := true

/-- The report on the job. -/
def report : Report :=
  ⟨[query 2024, query 2025], []⟩

/-- The words that ask for the job. -/
def words : List String :=
  ["compile", "--job-id", "job"]

theorem parse_words :
    CommandLine.parse words = .ok ⟨none, false, false, .compile "job"⟩ := by
  decide +kernel

theorem settings?_environment : environment.settings? none = some settings := by
  decide +kernel

theorem generate_eq :
    (Job.generate settings.compiler.failurePolicy (sources environment settings.sources)
      "job").outcome = .ok report := by
  decide +kernel

theorem isReadNearest_oneAndHalf : (Numeral.ofBinary64 oneAndHalf).IsReadNearest := by
  rw [Numeral.IsReadNearest]
  decide +kernel

theorem isReadNearest_query (year : Int64) : (query year).IsReadNearest := by
  intro x hx
  obtain rfl : x = oneAndHalf := by
    simpa [query, Query.values, Group.values] using hx
  exact isReadNearest_oneAndHalf

end Doses

theorem run_compile_doses :
    (Job.generate Doses.settings.compiler.failurePolicy
      (sources Doses.environment Doses.settings.sources) "job").outcome = .ok Doses.report ∧
    ∃ output, run Doses.environment Doses.words = ⟨output, .success⟩ ∧
      Prints output "job" 1 Doses.report.queries := by
  obtain ⟨_, _, hprints⟩ :=
    run_compile Doses.parse_words rfl Doses.settings?_environment rfl
  obtain ⟨output, hrun, hprints⟩ := hprints (by decide) Doses.report Doses.generate_eq
  refine ⟨Doses.generate_eq, output, hrun, hprints ?_⟩
  intro query hquery
  rcases List.mem_pair.1 hquery with rfl | rfl
  · exact Doses.isReadNearest_query 2024
  · exact Doses.isReadNearest_query 2025

end Program

end Expunge
