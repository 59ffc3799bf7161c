import Expunge.Proofs.Classification
import Expunge.Proofs.Job.Report
import Expunge.Proofs.Source

/-!
# No request missed and none invented

The report of a job over sources held in memory against the queue of the job. `Covers` says that
the matches in a record's scope are searched for in every row of its table, and `Justifies` that a
query searches for nothing else. `generate_covers_and_justifies` is both, for every record that the
report does not count as failed and for every query of the report.
-/

namespace Expunge

/-- The rows of a table held in memory: its partitions, or a single row without values if it has no
partition keys. -/
def CatalogEntry.rows (entry : CatalogEntry) : List Partition :=
  if entry.table.isPartitioned then entry.partitions else [⟨[]⟩]

/-- A catalog held in memory describes the tables of its entries. -/
theorem TableStore.table_eq_ok_iff {store : TableStore} {pageSize : Nat} {database name : String}
    {table : Table} :
    (store.catalog pageSize).table database name = .ok table ↔
      ∃ entry, CatalogEntry.find store.entries database name = .ok entry ∧ entry.table = table := by
  simp only [catalog, Catalog.ofEntries]
  cases CatalogEntry.find store.entries database name <;> simp [Except.map]

/-- The rows that a catalog held in memory has for a table are those of the table's entry. -/
theorem TableStore.rowsOf_catalog {store : TableStore} {pageSize : Nat} {database name : String}
    {entry : CatalogEntry} (h : CatalogEntry.find store.entries database name = .ok entry) :
    (store.catalog pageSize).rowsOf entry.table = .ok entry.rows := by
  obtain ⟨rfl, rfl⟩ := CatalogEntry.names_of_find h
  simp only [Catalog.rowsOf, CatalogEntry.rows, catalog, Catalog.ofEntries, h]
  split
  · exact Feed.rows_eq_ok_iff.2 (Feed.delivered_paged pageSize entry.partitions)
  · rfl

namespace Query

/-- A query is for a row of a table: its key values are the row's, each under its key and in the
shape of the key's type. -/
def IsFor (query : Query) (table : Table) (row : Partition) : Prop :=
  Expansion.IsKeyValuesOf table row query.partitionKeys

/-- A query searches a column for a value, in the shape of the column's type. -/
def FindsValue (query : Query) (table : Table) (column : String) (value : Value) : Prop :=
  ∃ ids, .simple column ids ∈ query.columns ∧
    ∃ typed ∈ ids, Column.cast value column table.columns = .ok typed

/-- A tuple holds the values of columns in order, each in the shape of its column's type. -/
def IsTupleOf (table : Table) (pairs : List ColumnValue) (tuple : List Value) : Prop :=
  List.Forall₂ (fun pair typed => Column.cast pair.value pair.column table.columns = .ok typed)
    pairs tuple

/-- A query searches the columns of a composite match, in the order of their names, for the tuple of
the match's values. -/
def FindsTuple (query : Query) (table : Table) (pairs : List ColumnValue) : Prop :=
  ∃ sorted ids tuple, Classification.IsOrdering pairs sorted ∧
    .composite (sorted.map (·.column)) ids ∈ query.columns ∧ tuple ∈ ids ∧
    IsTupleOf table sorted tuple

end Query

namespace Job

section
variable (store : TableStore) (requests : List Match) (record : MapperRecord)

/-- A report counts a record as failed: compiling it ends in an error, which the report names beside
the record's id. -/
def CountsFailed (pageSize : Nat) (report : Report) : Prop :=
  ∃ error, (compileItem (store.catalog pageSize) requests (.ok record)).outcome = .error error ∧
    ⟨record.id, error⟩ ∈ report.failures

/-- Queries cover a record: in every row of its table they search for each match in the record's
scope, a single value in every configured column, and a tuple if all of its columns are
configured. -/
structure Covers (queries : List Query) : Prop where
  simple : ∀ value scope, .simple value scope ∈ requests →
    (Match.simple value scope).appliesTo record.id = true →
    ∃ entry, CatalogEntry.find store.entries record.database record.table = .ok entry ∧
      ∀ row ∈ entry.rows, ∀ column ∈ record.columns, ∃ query ∈ queries,
        query.IsOf record ∧ query.IsFor entry.table row ∧ query.FindsValue entry.table column value
  composite : ∀ pairs scope, .composite pairs scope ∈ requests →
    (Match.composite pairs scope).appliesTo record.id = true →
    (∀ pair ∈ pairs, pair.column ∈ record.columns) →
    ∃ entry, CatalogEntry.find store.entries record.database record.table = .ok entry ∧
      ∀ row ∈ entry.rows, ∃ query ∈ queries,
        query.IsOf record ∧ query.IsFor entry.table row ∧ query.FindsTuple entry.table pairs

/-- A record justifies a query: the query is for a row of the record's table, every value it
searches for is that of a simple match in the record's scope, and every tuple that of a composite
match in the record's scope whose columns are all configured. -/
structure Justifies (entry : CatalogEntry) (query : Query) : Prop where
  described : CatalogEntry.find store.entries record.database record.table = .ok entry
  isOf : query.IsOf record
  isFor : ∃ row ∈ entry.rows, query.IsFor entry.table row
  simple : ∀ column ids, .simple column ids ∈ query.columns → column ∈ record.columns ∧
    ∀ typed ∈ ids, ∃ value scope, .simple value scope ∈ requests ∧
      (Match.simple value scope).appliesTo record.id = true ∧
      Column.cast value column entry.table.columns = .ok typed
  composite : ∀ columns ids, .composite columns ids ∈ query.columns → ∀ tuple ∈ ids,
    ∃ pairs scope sorted, .composite pairs scope ∈ requests ∧
      (Match.composite pairs scope).appliesTo record.id = true ∧
      (∀ pair ∈ pairs, pair.column ∈ record.columns) ∧
      Classification.IsOrdering pairs sorted ∧ columns = sorted.map (·.column) ∧
      Query.IsTupleOf entry.table sorted tuple

end

/-- The sources of a job that are all held in memory. -/
def memorySources (store : TableStore) (pageSize : Nat) (queues : QueueStore)
    (records : List MapperRecord) : Sources where
  catalog := store.catalog pageSize
  queue := queues.entries
  mappers := .ofRecords records

section
variable {store : TableStore} {pageSize : Nat} {requests : List Match} {record : MapperRecord}

/-- The query for a row of a record's table repeats the record and has the key values of the row. -/
theorem isOf_and_isFor {mapper : Mapper} {entry : CatalogEntry} {groups : List Group}
    {row : Partition} {query : Query} (hmapper : Mapper.ofRecord record = .ok mapper)
    (hentry : CatalogEntry.find store.entries mapper.database mapper.table = .ok entry)
    (hquery : Expansion.IsQueryOf mapper entry.table groups row query) :
    query.IsOf record ∧ query.IsFor entry.table row ∧ query.columns = groups := by
  obtain ⟨keys, hkeys, rfl⟩ := Expansion.isQueryOf_iff.1 hquery
  obtain ⟨hdatabase, hname⟩ := CatalogEntry.names_of_find hentry
  obtain ⟨hid, hexecutor, _, hdatabase', htable', _, hformat, hrole, hdelete⟩ :=
    Mapper.ofRecord_eq_ok_iff.1 hmapper
  refine ⟨⟨hid, hexecutor, hformat, ?_, ?_, hrole, ?_⟩, hkeys, rfl⟩
  · exact hdatabase.trans hdatabase'
  · exact hname.trans htable'
  · rw [← hdelete]
    rfl

/-- A record that compiles into queries of the report is covered by them. -/
theorem covers_of_compileItem {queries reported : List Query}
    (h : (compileItem (store.catalog pageSize) requests (.ok record)).outcome = .ok queries)
    (hreported : ∀ query ∈ queries, query ∈ reported) :
    Covers store requests record reported := by
  -- every match in scope meets the same table and groups; `hrows` is what a group of it leads to
  have hscope : ∀ request ∈ requests, request.appliesTo record.id = true →
      ∃ mapper entry groups, Mapper.ofRecord record = .ok mapper ∧
        CatalogEntry.find store.entries record.database record.table = .ok entry ∧
        Classification.classify requests mapper entry.table = .ok groups ∧
        (groups ≠ [] → ∀ row ∈ entry.rows, ∃ query ∈ reported,
          query.IsOf record ∧ query.IsFor entry.table row ∧ query.columns = groups) := by
    intro request hmem happlies
    obtain ⟨mapper, table, groups, hmapper, htable, hgroups, hrows⟩ :=
      exists_query_of_mem_rows h hmem happlies
    obtain ⟨entry, hentry, rfl⟩ := TableStore.table_eq_ok_iff.1 htable
    have hrecord := Mapper.ofRecord_eq_ok_iff.1 hmapper
    refine ⟨mapper, entry, groups, hmapper, ?_, hgroups, ?_⟩
    · rw [← hrecord.2.2.2.1, ← hrecord.2.2.2.2.1]
      exact hentry
    · intro hne row hrow
      obtain ⟨rows, hrows', hall⟩ := hrows hne
      rw [TableStore.rowsOf_catalog hentry] at hrows'
      cases hrows'
      obtain ⟨query, hquery, hfor⟩ := hall row hrow
      exact ⟨query, hreported query hquery, isOf_and_isFor hmapper hentry hfor⟩
  refine ⟨?_, ?_⟩
  · intro value scope hmem happlies
    obtain ⟨mapper, entry, groups, hmapper, hentry, hgroups, hrows⟩ := hscope _ hmem happlies
    obtain ⟨hid, _, _, _, _, hcolumns, _⟩ := Mapper.ofRecord_eq_ok_iff.1 hmapper
    rw [← hid] at happlies
    refine ⟨entry, hentry, ?_⟩
    intro row hrow column hcolumn
    rw [← hcolumns] at hcolumn
    obtain ⟨ids, hids, typed, htyped, hcast⟩ :=
      Classification.exists_simple_of_mem hgroups hmem happlies hcolumn
    obtain ⟨query, hquery, hof, hfor, rfl⟩ := hrows (List.ne_nil_of_mem hids) row hrow
    exact ⟨query, hquery, hof, hfor, ids, hids, typed, htyped, hcast⟩
  · intro pairs scope hmem happlies hcolumns
    obtain ⟨mapper, entry, groups, hmapper, hentry, hgroups, hrows⟩ := hscope _ hmem happlies
    obtain ⟨hid, _, _, _, _, hconfigured, _⟩ := Mapper.ofRecord_eq_ok_iff.1 hmapper
    rw [← hid] at happlies
    rw [← hconfigured] at hcolumns
    refine ⟨entry, hentry, ?_⟩
    intro row hrow
    obtain ⟨tuple, htuple⟩ := Classification.exists_castTuple_of_mem hgroups hmem happlies hcolumns
    obtain ⟨ids, hids, hin⟩ := (Classification.composite_mem_iff hgroups).2
      ⟨pairs, scope, hmem, happlies, hcolumns, rfl, htuple⟩
    obtain ⟨query, hquery, hof, hfor, rfl⟩ := hrows (List.ne_nil_of_mem hids) row hrow
    exact ⟨query, hquery, hof, hfor, _, ids, tuple, Classification.isOrdering_sortColumns pairs,
      hids, hin, Outcome.mapM_eq_ok_iff.1 htuple⟩

/-- The query that a record has for a row of its table is justified by the record. -/
theorem justifies_of_classify {mapper : Mapper} {entry : CatalogEntry} {groups : List Group}
    {row : Partition} {query : Query} (hmapper : Mapper.ofRecord record = .ok mapper)
    (hentry : CatalogEntry.find store.entries mapper.database mapper.table = .ok entry)
    (hgroups : Classification.classify requests mapper entry.table = .ok groups)
    (hrow : row ∈ entry.rows)
    (hquery : Expansion.IsQueryOf mapper entry.table groups row query) :
    Justifies store requests record entry query := by
  obtain ⟨hof, hfor, rfl⟩ := isOf_and_isFor hmapper hentry hquery
  obtain ⟨hid, _, _, hdatabase, htable, hcolumns, _⟩ := Mapper.ofRecord_eq_ok_iff.1 hmapper
  rw [hdatabase, htable] at hentry
  refine ⟨hentry, hof, ⟨row, hrow, hfor⟩, ?_, ?_⟩
  · intro column ids hids
    obtain ⟨hcolumn, _, hcast⟩ := (Classification.simple_mem_iff hgroups).1 hids
    rw [hcolumns] at hcolumn
    refine ⟨hcolumn, ?_⟩
    intro typed htyped
    obtain ⟨value, hvalue, hcast⟩ := Outcome.exists_left_of_forall₂ hcast htyped
    obtain ⟨scope, happlicable⟩ := Classification.mem_simpleValues_iff.1 hvalue
    obtain ⟨hmem, happlies⟩ := Classification.mem_applicable_iff.1 happlicable
    rw [hid] at happlies
    exact ⟨value, scope, hmem, happlies, hcast⟩
  · intro columns ids hids tuple htuple
    obtain ⟨pairs, scope, hmem, happlies, hconfigured, rfl, hcast⟩ :=
      (Classification.composite_mem_iff hgroups).1 ⟨ids, hids, htuple⟩
    rw [hid] at happlies
    rw [hcolumns] at hconfigured
    exact ⟨pairs, scope, _, hmem, happlies, hconfigured,
      Classification.isOrdering_sortColumns pairs, rfl, Outcome.mapM_eq_ok_iff.1 hcast⟩

end

/-- In the report of a job over sources held in memory, the queries cover every record that is not
counted as failed, and every query is justified by a record. -/
theorem generate_covers_and_justifies {policy : FailurePolicy} {store : TableStore} {pageSize : Nat}
    {queues : QueueStore} {records : List MapperRecord} {job : String} {report : Report}
    (h : (generate policy (memorySources store pageSize queues records) job).outcome =
      .ok report) :
    ∃ requests, queues.entries job = .ok requests ∧
      (∀ record ∈ records, ¬ CountsFailed store requests record pageSize report →
        Covers store requests record report.queries) ∧
      ∀ query ∈ report.queries, ∃ record ∈ records, ∃ entry,
        Justifies store requests record entry query := by
  obtain ⟨requests, hqueue, h⟩ := generate_eq_ok_iff.1 h
  have hmem : ∀ {record : MapperRecord},
      .ok record ∈ Registry.ofRecords records ↔ record ∈ records := by
    intro record
    simp [Registry.ofRecords]
  refine ⟨requests, hqueue, ?_, ?_⟩
  · intro record hrecord hcounted
    obtain ⟨_, heq, ⟨queries, hout, hreported⟩ | ⟨error, hout, hfailure⟩⟩ :=
      exists_record_of_mem h (hmem.2 hrecord)
    · exact covers_of_compileItem hout hreported
    · cases heq
      exact absurd ⟨error, hout, hfailure⟩ hcounted
  · intro query hquery
    obtain ⟨record, mapper, table, groups, rows, row, hrecord, hmapper, htable, hgroups, hrows,
      hrow, hfor⟩ := exists_of_mem_queries h hquery
    obtain ⟨entry, hentry, rfl⟩ := TableStore.table_eq_ok_iff.1 htable
    have hrows' : rows = entry.rows := by
      have hfound : (store.catalog pageSize).rowsOf entry.table = .ok entry.rows :=
        TableStore.rowsOf_catalog hentry
      exact Except.ok.inj (hrows.symm.trans hfound)
    subst hrows'
    exact ⟨record, hmem.1 hrecord, entry, justifies_of_classify hmapper hentry hgroups hrow hfor⟩

/-! A job with both kinds of matches, of which one is scoped, over a partitioned table and two
records, of which one configures no data mapper. -/

namespace Visits

/-- A table with one partition. -/
def entry : CatalogEntry where
  table := ⟨"web", "visits", [⟨"id", "int"⟩, ⟨"name", "char"⟩], [⟨"year", "int"⟩]⟩
  partitions := [⟨["7"]⟩]

/-- A simple match in every scope and a composite one in the scope of `a`. -/
def requests : List Match :=
  [.simple (.integer 1) [], .composite [⟨"name", .text "B"⟩, ⟨"id", .text "2"⟩] ["a"]]

/-- A record of the table under the given id and in the given format. -/
def record (id format : String) : MapperRecord :=
  ⟨id, "athena", ["id", "name"], format, "glue", "web", "visits", none, none⟩

/-- The sources of the job. -/
def sources : Sources :=
  memorySources ⟨[entry]⟩ 1 ⟨[("job", requests)]⟩ [record "b" "csv", record "a" "json"]

/-- The one query of the job. -/
def query : Query where
  mapper := "a"
  executor := .athena
  format := .json
  database := "web"
  table := "visits"
  columns := [.simple "id" [.integer 1], .simple "name" [.text "1"],
    .composite ["id", "name"] [[.integer 2, .text "B"]]]
  partitionKeys := [⟨"year", .integer 7⟩]
  roleArn := none
  deleteOldVersions := true

/-- The report of the job. -/
def report : Report :=
  ⟨[query], [⟨"b", .configuration (.unsupportedFormat "csv")⟩]⟩

end Visits

theorem visits_covered_and_justified :
    (generate .skip Visits.sources "job").outcome = .ok Visits.report ∧
      ∃ requests, (QueueStore.mk [("job", Visits.requests)]).entries "job" = .ok requests ∧
        (∀ record ∈ [Visits.record "b" "csv", Visits.record "a" "json"],
          ¬ CountsFailed ⟨[Visits.entry]⟩ requests record 1 Visits.report →
          Covers ⟨[Visits.entry]⟩ requests record Visits.report.queries) ∧
        ∀ query ∈ Visits.report.queries,
          ∃ record ∈ [Visits.record "b" "csv", Visits.record "a" "json"], ∃ entry,
            Justifies ⟨[Visits.entry]⟩ requests record entry query := by
  have h : (generate .skip Visits.sources "job").outcome = .ok Visits.report := by
    simp only [generate, Visits.sources, memorySources, Registry.ofRecords, List.map_cons,
      List.map_nil, compileItems, compileItem, compileMapper, Classification.classify,
      Classification.composites, Classification.sortColumns_eq_insertionSort]
    decide +kernel
  exact ⟨h, generate_covers_and_justifies h⟩

end Job

end Expunge
