import Expunge.Proofs.Classification
import Expunge.Proofs.Column.Cast
import Expunge.Proofs.Job.Report
import Expunge.Proofs.Match

/-!
# Queries are well typed

Every value in a query has the shape of the column it is searched for in, or of the partition key it
is the value of. Values come into queries from single values, from the tuples of composite matches,
where their place says which column they are for, and from the rows of tables.
`wellTyped_of_generate` is for matches read off documents, which hold finite values only.
-/

namespace Expunge

/-- A query is well typed for a record and the description of its table: it names configured columns
and partition keys that resolve, and gives each of them values of its type. -/
structure Query.IsWellTyped (query : Query) (record : MapperRecord) (table : Table) : Prop where
  simple : ∀ column ids, .simple column ids ∈ query.columns → column ∈ record.columns ∧
    (∃ kind, Column.resolve table.columns column = .ok kind) ∧
    ∀ typed ∈ ids, Column.IsTyped table.columns column typed
  composite : ∀ columns ids, .composite columns ids ∈ query.columns →
    (∀ column ∈ columns, column ∈ record.columns ∧
      ∃ kind, Column.resolve table.columns column = .ok kind) ∧
    ∀ tuple ∈ ids, List.Forall₂ (Column.IsTyped table.columns) columns tuple
  keys : ∀ pair ∈ query.partitionKeys, (∃ key ∈ table.partitionKeys, key.name = pair.key) ∧
    Column.IsTyped table.partitionKeys pair.key pair.value

namespace Classification

section
variable {requests : List Match} {mapper : Mapper} {table : Table} {groups : List Group}

/-- The values of a simple group are of the type of its column, which resolves. -/
theorem isTyped_of_mem_simple (hgroups : classify requests mapper table = .ok groups)
    (hfinite : ∀ request ∈ requests, ∀ value ∈ request.values, value.IsFinite) {column : String}
    {ids : List Value} (hids : .simple column ids ∈ groups) :
    (∃ kind, Column.resolve table.columns column = .ok kind) ∧
      ∀ typed ∈ ids, Column.IsTyped table.columns column typed := by
  obtain ⟨_, hvalues, hcast⟩ := (simple_mem_iff hgroups).1 hids
  have htyped : ∀ typed ∈ ids, Column.IsTyped table.columns column typed := by
    intro typed htyped
    obtain ⟨value, hvalue, hcast⟩ := Outcome.exists_left_of_forall₂ hcast htyped
    obtain ⟨scope, happlicable⟩ := mem_simpleValues_iff.1 hvalue
    obtain ⟨hmem, _⟩ := mem_applicable_iff.1 happlicable
    exact Column.isTyped_of_cast (hfinite _ hmem value (by simp [Match.values])) hcast
  refine ⟨?_, htyped⟩
  obtain ⟨value, hvalue⟩ := List.exists_mem_of_ne_nil _ hvalues
  obtain ⟨typed, hmem, _⟩ := Outcome.exists_right_of_forall₂ hcast hvalue
  obtain ⟨kind, hkind, _⟩ := htyped typed hmem
  exact ⟨kind, hkind⟩

/-- The values of a tuple are of the types of the columns at their places. -/
theorem forall₂_isTyped_of_castTuple {pairs : List ColumnValue} {tuple : List Value}
    (hfinite : ∀ pair ∈ pairs, pair.value.IsFinite) (h : castTuple table pairs = .ok tuple) :
    List.Forall₂ (Column.IsTyped table.columns) (pairs.map (·.column)) tuple := by
  have hcast := Outcome.mapM_eq_ok_iff.1 h
  clear h
  induction hcast with
  | nil => exact .nil
  | cons hfirst _ ih =>
    refine .cons (Column.isTyped_of_cast (hfinite _ (by simp)) hfirst) (ih ?_)
    intro pair hpair
    exact hfinite pair (List.mem_cons_of_mem _ hpair)

/-- The columns of a composite group are configured, and its tuples have values of their types at
their places. -/
theorem isTyped_of_mem_composite (hgroups : classify requests mapper table = .ok groups)
    (hfinite : ∀ request ∈ requests, ∀ value ∈ request.values, value.IsFinite)
    {columns : List String} {ids : List (List Value)} (hids : .composite columns ids ∈ groups)
    {tuple : List Value} (htuple : tuple ∈ ids) :
    (∀ column ∈ columns, column ∈ mapper.columns) ∧
      List.Forall₂ (Column.IsTyped table.columns) columns tuple := by
  obtain ⟨pairs, scope, hmem, _, hconfigured, rfl, hcast⟩ :=
    (composite_mem_iff hgroups).1 ⟨ids, hids, htuple⟩
  have hsorted {pair : ColumnValue} : pair ∈ sortColumns pairs ↔ pair ∈ pairs :=
    (isOrdering_sortColumns pairs).mem_iff
  constructor
  · intro column hcolumn
    obtain ⟨pair, hpair, rfl⟩ := List.mem_map.1 hcolumn
    exact hconfigured pair (hsorted.1 hpair)
  · refine forall₂_isTyped_of_castTuple ?_ hcast
    intro pair hpair
    exact hfinite _ hmem _ (List.mem_map_of_mem (hsorted.1 hpair))

end

end Classification

/-- The key values of a row are of the types of the keys that they name. -/
theorem Expansion.isTyped_of_isKeyValuesOf {table : Table} {row : Partition} {keys : List KeyValue}
    (h : IsKeyValuesOf table row keys) {pair : KeyValue} (hpair : pair ∈ keys) :
    (∃ key ∈ table.partitionKeys, key.name = pair.key) ∧
      Column.IsTyped table.partitionKeys pair.key pair.value := by
  obtain ⟨_, hall⟩ := h
  obtain ⟨⟨key, text⟩, hentry, hkey, hcast⟩ := Outcome.exists_left_of_forall₂ hall hpair
  have hfinite : (Value.text text).IsFinite := trivial
  rw [hkey]
  exact ⟨⟨key, (List.of_mem_zip hentry).1, rfl⟩, Column.isTyped_of_cast hfinite hcast⟩

namespace Job

/-- The query that a record has for a row of its table is well typed. -/
theorem isWellTyped_of_classify {requests : List Match} {record : MapperRecord} {mapper : Mapper}
    {table : Table} {groups : List Group} {row : Partition} {query : Query}
    (hfinite : ∀ request ∈ requests, ∀ value ∈ request.values, value.IsFinite)
    (hmapper : Mapper.ofRecord record = .ok mapper)
    (hgroups : Classification.classify requests mapper table = .ok groups)
    (hquery : Expansion.IsQueryOf mapper table groups row query) :
    query.mapper = record.id ∧ query.IsWellTyped record table := by
  obtain ⟨hid, _, _, _, _, hcolumns, _⟩ := Mapper.ofRecord_eq_ok_iff.1 hmapper
  obtain ⟨keys, hkeys, rfl⟩ := Expansion.isQueryOf_iff.1 hquery
  refine ⟨hid, ?_, ?_, ?_⟩
  · intro column ids hids
    rw [← hcolumns]
    obtain ⟨hconfigured, _⟩ := (Classification.simple_mem_iff hgroups).1 hids
    exact ⟨hconfigured, Classification.isTyped_of_mem_simple hgroups hfinite hids⟩
  · intro columns ids hids
    rw [← hcolumns]
    have htyped : ∀ tuple ∈ ids, _ := fun tuple htuple =>
      Classification.isTyped_of_mem_composite hgroups hfinite hids htuple
    refine ⟨?_, fun tuple htuple => (htyped tuple htuple).2⟩
    -- a column resolves because some tuple has a value for it
    obtain ⟨tuple, htuple⟩ :=
      List.exists_mem_of_ne_nil _ (Classification.composite_ne_nil hgroups hids)
    obtain ⟨hconfigured, hall⟩ := htyped tuple htuple
    intro column hcolumn
    obtain ⟨_, _, kind, hkind, _⟩ := Outcome.exists_right_of_forall₂ hall hcolumn
    exact ⟨hconfigured column hcolumn, kind, hkind⟩
  · intro pair hpair
    exact Expansion.isTyped_of_isKeyValuesOf hkeys hpair

/-- If the matches of a job's queue have been read off documents, every query of the job's report is
well typed for a record and the description of its table. -/
theorem wellTyped_of_generate {policy : FailurePolicy} {sources : Sources} {job : String}
    {requests : List Match} {report : Report} (hqueue : sources.queue job = .ok requests)
    (hdecoded : ∀ request ∈ requests, ∃ room json, Match.decode room json = .ok request)
    (h : (generate policy sources job).outcome = .ok report) :
    ∀ query ∈ report.queries, ∃ record table, .ok record ∈ sources.mappers ∧
      query.mapper = record.id ∧
      sources.catalog.table record.database record.table = .ok table ∧
      query.IsWellTyped record table := by
  obtain ⟨requests', hqueue', h⟩ := generate_eq_ok_iff.1 h
  rw [hqueue] at hqueue'
  cases hqueue'
  have hfinite : ∀ request ∈ requests, ∀ value ∈ request.values, value.IsFinite := by
    intro request hrequest value hvalue
    obtain ⟨room, json, hdecode⟩ := hdecoded request hrequest
    exact Match.isFinite_of_decode hdecode hvalue
  intro query hquery
  obtain ⟨record, mapper, table, groups, rows, row, hrecord, hmapper, htable, hgroups, _, _,
    hfor⟩ := exists_of_mem_queries h hquery
  obtain ⟨_, _, _, hdatabase, hname, _⟩ := Mapper.ofRecord_eq_ok_iff.1 hmapper
  rw [hdatabase, hname] at htable
  obtain ⟨hid, htyped⟩ := isWellTyped_of_classify hfinite hmapper hgroups hfor
  exact ⟨record, table, hrecord, hid, htable, htyped⟩

/-! A job whose queries have values of all three shapes, one float among them given as a text. -/

namespace Readings

/-- A table with one partition. -/
def entry : CatalogEntry where
  table := ⟨"lab", "readings", [⟨"id", "string"⟩, ⟨"dose", "double"⟩],
    [⟨"year", "smallint"⟩]⟩
  partitions := [⟨["2024"]⟩]

/-- The entries of the queue. -/
def queue : List Json :=
  [.ofFields [("match_id", .ofInt 0)],
   .ofFields [("match_id", .array
     [.ofFields [("column", .ofString "id"), ("value", .ofInt 0)],
      .ofFields [("column", .ofString "dose"), ("value", .ofString "0")]])]]

/-- The matches that the entries of the queue are read as. -/
def requests : List Match :=
  [.simple (.integer 0) [],
   .composite [⟨"id", .integer 0⟩, ⟨"dose", .text "0"⟩] []]

/-- The sources of the job. -/
def sources : Sources where
  catalog := TableStore.catalog ⟨[entry]⟩ 1
  queue := fun _ => .ok requests
  mappers := .ofRecords
    [⟨"m", "athena", ["id", "dose"], "json", "glue", "lab", "readings", none, none⟩]

/-- The one query of the job. -/
def query : Query where
  mapper := "m"
  executor := .athena
  format := .json
  database := "lab"
  table := "readings"
  columns := [.simple "id" [.text "0"], .simple "dose" [.float (.ofInt 0)],
    .composite ["dose", "id"] [[.float (.ofInt 0), .text "0"]]]
  partitionKeys := [⟨"year", .integer 2024⟩]
  roleArn := none
  deleteOldVersions := true

theorem decode_queue :
    List.Forall₂ (fun json request => Match.decode Json.depthLimit json = .ok request)
      queue requests :=
  .cons (by decide +kernel) (.cons (by decide +kernel) .nil)

end Readings

theorem wellTyped_readings :
    (generate .skip Readings.sources "job").outcome = .ok ⟨[Readings.query], []⟩ ∧
      ∀ query ∈ [Readings.query], ∃ record table, .ok record ∈ Readings.sources.mappers ∧
        query.mapper = record.id ∧
        Readings.sources.catalog.table record.database record.table = .ok table ∧
        query.IsWellTyped record table := by
  have h : (generate .skip Readings.sources "job").outcome = .ok ⟨[Readings.query], []⟩ := by
    simp only [generate, Readings.sources, Registry.ofRecords, List.map_cons, List.map_nil,
      compileItems, compileItem, compileMapper, Classification.classify, Classification.composites,
      Classification.sortColumns_eq_insertionSort]
    decide +kernel
  refine ⟨h, wellTyped_of_generate rfl ?_ h⟩
  intro request hrequest
  obtain ⟨json, _, hdecode⟩ := Outcome.exists_left_of_forall₂ Readings.decode_queue hrequest
  exact ⟨_, json, hdecode⟩

end Job

end Expunge
