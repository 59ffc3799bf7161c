import Expunge.Proofs.Classification
import Expunge.Proofs.Job.Report
import Expunge.Proofs.Match
import Mathlib.Data.Set.List

/-!
# No vacuous condition

A query has something to search for in each of its groups, and at least one group; so it never
selects all records of a partition. Tuples are collected under distinct lists of columns
(`nodup_compositeTuples`), none of them empty because no match of a queue names no column.
`proper_of_generate` is for matches read off documents: only the reader refuses empty composite
matches.
-/

namespace Expunge

/-- A group has something to search for: a value for its column, or a tuple with a value for each of
its columns, which are in order and at least one. -/
def Group.IsProper : Group → Prop
  | simple _ ids => ids ≠ []
  | composite columns ids =>
    columns ≠ [] ∧ columns.Pairwise (· ≤ ·) ∧ ids ≠ [] ∧
      ∀ tuple ∈ ids, tuple.length = columns.length

/-- A query has groups, all of them proper, and a value for each partition key of its table. The
simple groups come first, and no two composite ones are for the same columns. -/
structure Query.IsProper (query : Query) (table : Table) : Prop where
  nonempty : query.columns ≠ []
  proper : ∀ group ∈ query.columns, group.IsProper
  ordered : ∃ (simples : List (String × List Value))
      (composites : List (List String × List (List Value))),
    query.columns = simples.map (fun group => .simple group.1 group.2) ++
      composites.map (fun group => .composite group.1 group.2) ∧
    (composites.map (·.1)).Nodup
  keys : query.partitionKeys.length = table.partitionKeys.length

namespace Classification

/-- The tuples of composite matches are collected under distinct lists of columns. -/
theorem nodup_compositeTuples {columns : List String} {table : Table}
    {composites : List (List ColumnValue)} {groups : List (List String × List (List Value))}
    (h : compositeTuples columns table composites = .ok groups) : (groups.map (·.1)).Nodup := by
  rw [compositeTuples_eq, Outcome.map_eq_ok_iff] at h
  obtain ⟨rows, _, rfl⟩ := h
  exact nodup_collect rows

/-! ## Groups and queries -/

section
variable {requests : List Match} {mapper : Mapper} {table : Table} {groups : List Group}

/-- The simple groups come first, and no two composite ones are for the same columns. -/
theorem ordered_of_classify (h : classify requests mapper table = .ok groups) :
    ∃ (simples : List (String × List Value))
        (composites : List (List String × List (List Value))),
      groups = simples.map (fun group => .simple group.1 group.2) ++
        composites.map (fun group => .composite group.1 group.2) ∧
      (composites.map (·.1)).Nodup := by
  obtain ⟨simple, tuples, hsimple, htuples, rfl⟩ := exists_of_classify h
  have hshape : ∀ group ∈ simple, ∃ pair : String × List Value,
      Group.simple pair.1 pair.2 = group := by
    intro group hgroup
    obtain ⟨_, column, _, ids, _, rfl⟩ := (mem_simpleGroups_iff hsimple).1 hgroup
    exact ⟨(column, ids), rfl⟩
  have hrange : simple ∈ Set.range (List.map fun pair : String × List Value =>
      Group.simple pair.1 pair.2) := by
    rw [Set.range_list_map]
    exact hshape
  obtain ⟨simples, rfl⟩ := hrange
  exact ⟨simples, tuples, rfl, nodup_compositeTuples htuples⟩

/-- The groups of a data mapper are proper if no composite match is empty. -/
theorem isProper_of_mem (h : classify requests mapper table = .ok groups)
    (hne : ∀ pairs scope, .composite pairs scope ∈ requests → pairs ≠ []) {group : Group}
    (hgroup : group ∈ groups) : group.IsProper := by
  cases group with
  | simple column ids =>
    obtain ⟨_, hvalues, hcast⟩ := (simple_mem_iff h).1 hgroup
    rintro rfl
    exact hvalues (List.forall₂_nil_right_iff.1 hcast)
  | composite columns ids =>
    have hids : ids ≠ [] := composite_ne_nil h hgroup
    have htuple : ∀ tuple ∈ ids, ∃ pairs scope, .composite pairs scope ∈ requests ∧
        columns = (sortColumns pairs).map (·.column) ∧
        castTuple table (sortColumns pairs) = .ok tuple := by
      intro tuple htuple
      obtain ⟨pairs, scope, hmem, _, _, hcolumns, hcast⟩ :=
        (composite_mem_iff h).1 ⟨ids, hgroup, htuple⟩
      exact ⟨pairs, scope, hmem, hcolumns, hcast⟩
    -- a tuple of the group says where its columns come from
    obtain ⟨tuple, hmem⟩ := List.exists_mem_of_ne_nil _ hids
    obtain ⟨pairs, scope, hrequest, rfl, _⟩ := htuple tuple hmem
    refine ⟨?_, ?_, hids, ?_⟩
    · intro hnil
      have hsorted : sortColumns pairs = [] := List.map_eq_nil_iff.1 hnil
      have hperm := perm_sortColumns pairs
      rw [hsorted] at hperm
      exact hne pairs scope hrequest hperm.nil_eq.symm
    · exact List.pairwise_map.2 (isOrdering_sortColumns pairs).ordered
    · intro other hother
      obtain ⟨_, _, _, hcolumns, hcast⟩ := htuple other hother
      rw [hcolumns, List.length_map]
      exact (Outcome.mapM_eq_ok_iff.1 hcast).length_eq.symm

end

end Classification

namespace Job

/-- The query that a record has for a row of its table is proper, if there is a group at all. -/
theorem isProper_of_isQueryOf {requests : List Match} {mapper : Mapper} {table : Table}
    {groups : List Group} {row : Partition} {query : Query}
    (hne : ∀ pairs scope, .composite pairs scope ∈ requests → pairs ≠ [])
    (hgroups : Classification.classify requests mapper table = .ok groups) (hsome : groups ≠ [])
    (hquery : Expansion.IsQueryOf mapper table groups row query) : query.IsProper table := by
  obtain ⟨keys, ⟨hlength, hall⟩, rfl⟩ := Expansion.isQueryOf_iff.1 hquery
  refine ⟨hsome, ?_, Classification.ordered_of_classify hgroups, ?_⟩
  · intro group hgroup
    exact Classification.isProper_of_mem hgroups hne hgroup
  · have hkeys := hall.length_eq
    rw [List.length_zip, hlength, Nat.min_self] at hkeys
    exact hkeys.symm

/-- Every query of the report of a job is proper for the description of its table, if the matches of
the job's queue have been read off documents. -/
theorem proper_of_generate {policy : FailurePolicy} {sources : Sources} {job : String}
    {requests : List Match} {report : Report} (hqueue : sources.queue job = .ok requests)
    (hdecoded : ∀ request ∈ requests, ∃ room json, Match.decode room json = .ok request)
    (h : (generate policy sources job).outcome = .ok report) :
    ∀ query ∈ report.queries, ∃ record table, .ok record ∈ sources.mappers ∧
      query.mapper = record.id ∧
      sources.catalog.table record.database record.table = .ok table ∧ query.IsProper table := by
  obtain ⟨requests', hqueue', h⟩ := generate_eq_ok_iff.1 h
  rw [hqueue] at hqueue'
  cases hqueue'
  have hne : ∀ pairs scope, .composite pairs scope ∈ requests → pairs ≠ [] := by
    intro pairs scope hmem
    obtain ⟨room, json, hdecode⟩ := hdecoded _ hmem
    exact Match.namesColumn_of_decode hdecode
  intro query hquery
  obtain ⟨record, mapper, table, groups, queries, hrecord, hmapper, htable, hgroups, hexpand,
    hmem⟩ := exists_expansion_of_mem_queries h hquery
  obtain ⟨hid, _, _, hdatabase, hname, _⟩ := Mapper.ofRecord_eq_ok_iff.1 hmapper
  rw [hdatabase, hname] at htable
  rcases Expansion.expand_eq_ok_iff.1 hexpand with ⟨_, rfl⟩ | ⟨hsome, rows, _, hall⟩
  · cases hmem
  · obtain ⟨row, _, hfor⟩ := Outcome.exists_left_of_forall₂ hall hmem
    refine ⟨record, table, hrecord, ?_, htable, isProper_of_isQueryOf hne hgroups hsome hfor⟩
    exact hfor.1.mapper_eq.trans hid

/-! A job with two composite matches that name the same columns in different orders, and a simple
one. -/

namespace Patients

/-- A table with one partition. -/
def entry : CatalogEntry where
  table := ⟨"clinic", "patients", [⟨"name", "string"⟩, ⟨"bed", "int"⟩], [⟨"year", "int"⟩]⟩
  partitions := [⟨["2024"]⟩]

/-- The document that holds a column and a text. -/
def column (name value : String) : Json :=
  .ofFields [("column", .ofString name), ("value", .ofString value)]

/-- The entries of the queue. -/
def queue : List Json :=
  [.ofFields [("match_id", .array [column "name" "A", column "bed" "3"])],
   .ofFields [("match_id", .array [column "bed" "4", column "name" "B"])],
   .ofFields [("match_id", .ofString "7")]]

/-- The matches that the entries of the queue are read as. -/
def requests : List Match :=
  [.composite [⟨"name", .text "A"⟩, ⟨"bed", .text "3"⟩] [],
   .composite [⟨"bed", .text "4"⟩, ⟨"name", .text "B"⟩] [],
   .simple (.text "7") []]

/-- The sources of the job. -/
def sources : Sources where
  catalog := TableStore.catalog ⟨[entry]⟩ 1
  queue := fun _ => .ok requests
  mappers := .ofRecords
    [⟨"p", "athena", ["name", "bed"], "parquet", "glue", "clinic", "patients", none, some false⟩]

/-- The one query of the job. -/
def query : Query where
  mapper := "p"
  executor := .athena
  format := .parquet
  database := "clinic"
  table := "patients"
  columns := [.simple "name" [.text "7"], .simple "bed" [.integer 7],
    .composite ["bed", "name"] [[.integer 3, .text "A"], [.integer 4, .text "B"]]]
  partitionKeys := [⟨"year", .integer 2024⟩]
  roleArn := none
  deleteOldVersions := false

theorem decode_queue :
    List.Forall₂ (fun json request => Match.decode Json.depthLimit json = .ok request)
      queue requests :=
  .cons (by decide +kernel) (.cons (by decide +kernel) (.cons (by decide +kernel) .nil))

end Patients

theorem proper_patients :
    (generate .abort Patients.sources "job").outcome = .ok ⟨[Patients.query], []⟩ ∧
      ∀ query ∈ [Patients.query], ∃ record table, .ok record ∈ Patients.sources.mappers ∧
        query.mapper = record.id ∧
        Patients.sources.catalog.table record.database record.table = .ok table ∧
        query.IsProper table := by
  have h : (generate .abort Patients.sources "job").outcome = .ok ⟨[Patients.query], []⟩ := by
    simp only [generate, Patients.sources, Registry.ofRecords, List.map_cons, List.map_nil,
      compileItems, compileItem, compileMapper, Classification.classify, Classification.composites,
      Classification.sortColumns_eq_insertionSort]
    decide +kernel
  refine ⟨h, proper_of_generate rfl ?_ h⟩
  intro request hrequest
  obtain ⟨json, _, hdecode⟩ := Outcome.exists_left_of_forall₂ Patients.decode_queue hrequest
  exact ⟨_, json, hdecode⟩

end Job

end Expunge
