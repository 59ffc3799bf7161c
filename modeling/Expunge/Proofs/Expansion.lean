import Expunge.Expansion
import Expunge.Proofs.Source

/-!
# Expansion as a map over the rows of a table

Of a feed only what it delivers has a part in the queries that are made of it (`outcome_overFeed`).
So `expand_eq_ok_iff` says what the queries of a data mapper are: none without groups, otherwise one
for each row of the table in the order of the rows, all with the same groups. A table without
partition keys counts as one with a single row that has no values (`Catalog.rowsOf`).
-/

namespace Expunge

/-- The rows of a table: its partitions, or a single row without values if it has no partition
keys. -/
def Catalog.rowsOf (catalog : Catalog) (table : Table) : Except SourceError (List Partition) :=
  if table.isPartitioned then (catalog.partitions table.database table.name).rows
  else .ok [⟨[]⟩]

theorem Catalog.rowsOf_of_keyless (catalog : Catalog) {table : Table}
    (h : table.partitionKeys = []) : catalog.rowsOf table = .ok [⟨[]⟩] := by
  rw [rowsOf, if_neg (by simpa [Table.isPartitioned] using h)]

theorem Catalog.rowsOf_eq_ok_iff {catalog : Catalog} {table : Table} {rows : List Partition}
    (h : table.partitionKeys ≠ []) :
    catalog.rowsOf table = .ok rows ↔
      (catalog.partitions table.database table.name).delivered = rows.map .ok := by
  rw [rowsOf, if_pos (by simpa [Table.isPartitioned] using h), Feed.rows_eq_ok_iff]

/-- A query is made by a data mapper over a table, for some groups. Unless the data mapper says
otherwise, it deletes old versions too. -/
structure Query.IsMadeBy (query : Query) (mapper : Mapper) (table : Table) (groups : List Group) :
    Prop where
  mapper_eq : query.mapper = mapper.id
  executor_eq : query.executor = mapper.executor
  format_eq : query.format = mapper.format
  roleArn_eq : query.roleArn = mapper.roleArn
  deleteOldVersions_eq : query.deleteOldVersions = mapper.deleteOldVersions.getD true
  database_eq : query.database = table.database
  table_eq : query.table = table.name
  columns_eq : query.columns = groups

namespace Expansion

/-- Key values stand to the keys of a table one by one, each being the cast of the row's value at
its place. -/
def IsKeyValuesOf (table : Table) (row : Partition) (keys : List KeyValue) : Prop :=
  row.values.length = table.partitionKeys.length ∧
    List.Forall₂ (fun (entry : Column × String) pair => pair.key = entry.1.name ∧
        Column.cast (.text entry.2) entry.1.name table.partitionKeys = .ok pair.value)
      (table.partitionKeys.zip row.values) keys

/-- The name of a key with the value cast for it. -/
def keyValue (keys : List Column) (entry : Column × String) : Except CompileError KeyValue :=
  ((Column.cast (.text entry.2) entry.1.name keys).map (⟨entry.1.name, ·⟩)).mapError .column

theorem keyValue_eq_ok_iff {keys : List Column} {entry : Column × String} {pair : KeyValue} :
    keyValue keys entry = .ok pair ↔
      pair.key = entry.1.name ∧ Column.cast (.text entry.2) entry.1.name keys = .ok pair.value := by
  obtain ⟨key, value⟩ := pair
  rw [keyValue, Outcome.mapError_eq_ok_iff, Outcome.map_eq_ok_iff]
  constructor
  · rintro ⟨typed, hcast, heq⟩
    cases heq
    exact ⟨rfl, hcast⟩
  · rintro ⟨rfl, hcast⟩
    exact ⟨value, hcast, rfl⟩

theorem keyValues_eq_mapM {table : Table} {row : Partition}
    (h : row.values.length = table.partitionKeys.length) :
    keyValues table row =
      (table.partitionKeys.zip row.values).mapM (keyValue table.partitionKeys) := by
  rw [keyValues, if_neg (not_not.2 h)]
  refine congrArg (List.mapM · _) (funext fun entry => ?_)
  rw [keyValue]
  split
  next key value =>
    cases Column.cast (.text value) key.name table.partitionKeys <;> rfl

/-- The keys of a row are read off if there is a value for each key and each value casts. -/
theorem keyValues_eq_ok_iff {table : Table} {row : Partition} {keys : List KeyValue} :
    keyValues table row = .ok keys ↔ IsKeyValuesOf table row keys := by
  by_cases hlength : row.values.length = table.partitionKeys.length
  · rw [keyValues_eq_mapM hlength, Outcome.mapM_eq_ok_iff, IsKeyValuesOf, and_iff_right hlength]
    simp only [keyValue_eq_ok_iff]
  · rw [keyValues, if_pos hlength, IsKeyValuesOf]
    constructor
    · intro h
      cases h
    · rintro ⟨h, _⟩
      exact absurd h hlength

/-- Without partition keys, the single row without values gives no key. -/
theorem isKeyValuesOf_nil_iff {table : Table} {keys : List KeyValue}
    (h : table.partitionKeys = []) :
    IsKeyValuesOf table ⟨[]⟩ keys ↔ keys = [] := by
  simp [IsKeyValuesOf, h]

/-! ## Rows that are delivered -/

/-- The query for a partition that a feed delivers, or the failure that it delivers instead. -/
def queryFor (mapper : Mapper) (table : Table) (groups : List Group) :
    Except SourceError Partition → Except CompileError Query
  | .error error => .error (.source error)
  | .ok row => do return query mapper table groups (← keyValues table row)

section
variable {mapper : Mapper} {table : Table} {groups : List Group}

/-- Of a feed only what is delivered has a part in the queries. -/
theorem outcome_overFeed (mapper : Mapper) (table : Table) (groups : List Group) (feed : Feed) :
    (overFeed mapper table groups feed).outcome =
      feed.delivered.mapM (queryFor mapper table groups) := by
  induction feed with
  | nil => rfl
  | cons step rest ih =>
    cases step with
    | page =>
      rw [overFeed, Run.outcome_bind, Run.outcome_emit]
      exact ih
    | fault error => rfl
    | row row =>
      have hdelivered : Feed.delivered (.row row :: rest) = .ok row :: Feed.delivered rest := rfl
      rw [overFeed, hdelivered, List.mapM_cons, ← ih]
      simp only [Run.outcome_bind, Run.outcome_ofExcept, Run.outcome_pure, queryFor]
      cases keyValues table row <;> rfl

/-- A query is for a row of a table, from which it has the values of the keys. -/
def IsQueryOf (mapper : Mapper) (table : Table) (groups : List Group) (row : Partition)
    (result : Query) : Prop :=
  result.IsMadeBy mapper table groups ∧ IsKeyValuesOf table row result.partitionKeys

theorem isMadeBy_iff {result : Query} :
    result.IsMadeBy mapper table groups ↔
      result = query mapper table groups result.partitionKeys := by
  constructor
  · intro h
    cases result
    rw [query, Query.mk.injEq]
    exact ⟨h.mapper_eq, h.executor_eq, h.format_eq, h.database_eq, h.table_eq, h.columns_eq, rfl,
      h.roleArn_eq, h.deleteOldVersions_eq⟩
  · intro h
    rw [h]
    exact ⟨rfl, rfl, rfl, rfl, rfl, rfl, rfl, rfl⟩

theorem isQueryOf_iff {row : Partition} {result : Query} :
    IsQueryOf mapper table groups row result ↔
      ∃ keys, IsKeyValuesOf table row keys ∧ result = query mapper table groups keys := by
  rw [IsQueryOf, isMadeBy_iff]
  constructor
  · rintro ⟨hmade, hkeys⟩
    exact ⟨_, hkeys, hmade⟩
  · rintro ⟨keys, hkeys, rfl⟩
    exact ⟨rfl, hkeys⟩

theorem queryFor_eq_ok_iff {item : Except SourceError Partition} {result : Query} :
    queryFor mapper table groups item = .ok result ↔
      ∃ row, item = .ok row ∧ IsQueryOf mapper table groups row result := by
  cases item with
  | error error => simp [queryFor]
  | ok row =>
    simp only [queryFor, Outcome.bind_eq_ok_iff, keyValues_eq_ok_iff, isQueryOf_iff,
      Except.ok.injEq, exists_eq_left', pure, Except.pure]
    exact exists_congr fun keys => and_congr_right fun _ => eq_comm

/-- Everything that is delivered gives a query if it is rows only and each of them does. -/
theorem mapM_queryFor_eq_ok_iff {items : List (Except SourceError Partition)}
    {queries : List Query} :
    items.mapM (queryFor mapper table groups) = .ok queries ↔
      ∃ rows : List Partition, items = rows.map .ok ∧
        List.Forall₂ (IsQueryOf mapper table groups) rows queries := by
  rw [Outcome.mapM_eq_ok_iff]
  simp only [queryFor_eq_ok_iff]
  constructor
  · intro h
    induction h with
    | nil => exact ⟨[], rfl, .nil⟩
    | cons hitem _ ih =>
      obtain ⟨row, rfl, hrow⟩ := hitem
      obtain ⟨rows, rfl, hrows⟩ := ih
      exact ⟨row :: rows, rfl, .cons hrow hrows⟩
  · rintro ⟨rows, rfl, h⟩
    rw [List.forall₂_map_left_iff]
    exact h.imp fun row _ hrow => ⟨row, rfl, hrow⟩

end

/-! ## Queries -/

section
variable {catalog : Catalog} {mapper : Mapper} {table : Table} {groups : List Group}

/-- With groups and partition keys, the outcome is that of a pass over what is delivered. -/
theorem outcome_expand (hgroups : groups ≠ []) (hkeys : table.partitionKeys ≠ []) :
    (expand catalog mapper table groups).outcome =
      (catalog.partitions table.database table.name).delivered.mapM
        (queryFor mapper table groups) := by
  rw [expand, if_neg (by simpa using hgroups), if_pos (by simpa [Table.isPartitioned] using hkeys),
    Run.outcome_bind, Run.outcome_emit, ← outcome_overFeed]
  rfl

/-- The queries of a data mapper: none without groups, otherwise one for each row of its table. -/
theorem expand_eq_ok_iff {queries : List Query} :
    (expand catalog mapper table groups).outcome = .ok queries ↔
      (groups = [] ∧ queries = []) ∨ (groups ≠ [] ∧ ∃ rows, catalog.rowsOf table = .ok rows ∧
        List.Forall₂ (IsQueryOf mapper table groups) rows queries) := by
  by_cases hgroups : groups = []
  · subst hgroups
    simp [expand, eq_comm]
  by_cases hkeys : table.partitionKeys = []
  · rw [expand, if_neg (by simpa using hgroups),
      if_neg (by simpa [Table.isPartitioned] using hkeys), catalog.rowsOf_of_keyless hkeys]
    constructor
    · intro h
      cases h
      exact .inr ⟨hgroups, _, rfl,
        .cons (isQueryOf_iff.2 ⟨[], (isKeyValuesOf_nil_iff hkeys).2 rfl, rfl⟩) .nil⟩
    · rintro (⟨h, _⟩ | ⟨_, rows, hrows, hall⟩)
      · exact absurd h hgroups
      · cases hrows
        obtain ⟨_, rest, hquery, hrest, rfl⟩ := List.forall₂_cons_left_iff.1 hall
        cases hrest
        obtain ⟨_, hnone, rfl⟩ := isQueryOf_iff.1 hquery
        rw [(isKeyValuesOf_nil_iff hkeys).1 hnone]
        rfl
  · rw [outcome_expand hgroups hkeys, mapM_queryFor_eq_ok_iff]
    simp only [Catalog.rowsOf_eq_ok_iff hkeys, hgroups, false_and, false_or, ne_eq,
      not_false_eq_true, true_and]

end

end Expansion

end Expunge
