import Expunge.Proofs.Column.Cast
import Expunge.Proofs.Expansion
import Mathlib.Data.Set.List

/-!
# One query for each row

What the groups of a data mapper expand to, over whatever a catalog delivers (`ExpandsTo`): no query
without groups; a single one if the table has no partition keys; and otherwise either one query for
each row, in the order of the rows and all with the same groups, or the first failure, be it of a
row or of the feed itself. The relation determines the outcome (`outcome_expand_iff`), so there are
no other cases, and no two of them at a time.
-/

namespace Expunge.Expansion

/-! ## Rows that fail -/

/-- The value of a key is not cast: the name of the key does not resolve, or the text is not one of
the kind that it resolves to. -/
inductive ValueFails (keys : List Column) : Column × String → ColumnError → Prop
  | unresolved {key : Column} {value : String} {error : ColumnError} :
      Column.resolve keys key.name = .error error → ValueFails keys (key, value) error
  | uncastable {key : Column} {value : String} {kind : PrimitiveKind} :
      Column.resolve keys key.name = .ok kind → (Value.text value).castTo? kind = none →
      ValueFails keys (key, value) (.uncastable key.name value kind)

/-- A row does not give values to the keys of a table: it has not as many values as there are keys,
or else the first of them that is not cast is to blame. -/
inductive RowFails (table : Table) (row : Partition) : CompileError → Prop
  | mismatch : row.values.length ≠ table.partitionKeys.length →
      RowFails table row (.partitionMismatch table.database table.name table.partitionKeys.length
        row.values.length)
  | value {before after : List (Column × String)} {entry : Column × String} {error : ColumnError} :
      row.values.length = table.partitionKeys.length →
      table.partitionKeys.zip row.values = before ++ entry :: after →
      (∀ other ∈ before, ∃ typed,
        Column.cast (.text other.2) other.1.name table.partitionKeys = .ok typed) →
      ValueFails table.partitionKeys entry error → RowFails table row (.column error)

theorem valueFails_iff {keys : List Column} {entry : Column × String} {error : ColumnError} :
    ValueFails keys entry error ↔
      Column.cast (.text entry.2) entry.1.name keys = .error error := by
  rw [Column.cast_eq_error_iff]
  constructor
  · intro h
    cases h with
    | unresolved hresolve => exact .inl hresolve
    | uncastable hresolve hcast => exact .inr ⟨_, hresolve, hcast, rfl⟩
  · rintro (hresolve | ⟨kind, hresolve, hcast, rfl⟩)
    · exact .unresolved hresolve
    · exact .uncastable hresolve hcast

theorem exists_keyValue_iff {keys : List Column} {entry : Column × String} :
    (∃ pair, keyValue keys entry = .ok pair) ↔
      ∃ typed, Column.cast (.text entry.2) entry.1.name keys = .ok typed := by
  simp only [keyValue_eq_ok_iff]
  constructor
  · rintro ⟨pair, _, hcast⟩
    exact ⟨pair.value, hcast⟩
  · rintro ⟨typed, hcast⟩
    exact ⟨⟨entry.1.name, typed⟩, rfl, hcast⟩

theorem keyValue_eq_error_iff {keys : List Column} {entry : Column × String}
    {error : CompileError} :
    keyValue keys entry = .error error ↔ ∃ cause, ValueFails keys entry cause ∧
      error = .column cause := by
  simp only [keyValue, valueFails_iff]
  cases Column.cast (.text entry.2) entry.1.name keys <;>
    simp [Except.map, Except.mapError, eq_comm]

section
variable {table : Table} {row : Partition}

/-- Reading off the values of a row fails in the way that is said of the row. -/
theorem keyValues_eq_error_iff {error : CompileError} :
    keyValues table row = .error error ↔ RowFails table row error := by
  by_cases hlength : row.values.length = table.partitionKeys.length
  · rw [keyValues_eq_mapM hlength, Outcome.mapM_eq_error_iff]
    simp only [exists_keyValue_iff, keyValue_eq_error_iff]
    constructor
    · rintro ⟨before, entry, after, hentries, hbefore, cause, hfails, rfl⟩
      exact .value hlength hentries hbefore hfails
    · intro h
      cases h with
      | mismatch h => exact absurd hlength h
      | value _ hentries hbefore hfails => exact ⟨_, _, _, hentries, hbefore, _, hfails, rfl⟩
  · rw [keyValues, if_pos hlength]
    constructor
    · intro h
      cases h
      exact .mismatch hlength
    · intro h
      cases h with
      | mismatch => rfl
      | value h => exact absurd h hlength

end

/-! ## Feeds that fail -/

section
variable {mapper : Mapper} {table : Table} {groups : List Group}

theorem queryFor_eq_error_iff {item : Except SourceError Partition} {error : CompileError} :
    queryFor mapper table groups item = .error error ↔
      (∃ row, item = .ok row ∧ RowFails table row error) ∨
        ∃ cause, item = .error cause ∧ error = .source cause := by
  cases item with
  | error cause => simp [queryFor, eq_comm]
  | ok row =>
    simp only [queryFor, ← keyValues_eq_error_iff]
    cases hkeys : keyValues table row <;> simp [hkeys, bind, Except.bind, pure, Except.pure]

/-- Rows are delivered and nothing else if each item that is delivered is one. -/
theorem exists_rows_iff {items : List (Except SourceError Partition)} :
    (∃ rows : List Partition, items = rows.map .ok) ↔ ∀ item ∈ items, ∃ row, item = .ok row := by
  have h := Set.ext_iff.1
    (Set.range_list_map (Except.ok : Partition → Except SourceError Partition)) items
  simpa only [Set.mem_range, Set.mem_ofPred_eq, eq_comm] using h

/-- Everything that is delivered gives queries up to the first failure, of a row or of the feed. -/
theorem mapM_queryFor_eq_error_iff {items : List (Except SourceError Partition)}
    {error : CompileError} :
    items.mapM (queryFor mapper table groups) = .error error ↔
      ∃ (before : List Partition) (item : Except SourceError Partition) (after : _),
        items = before.map .ok ++ item :: after ∧
        (∀ other ∈ before, ∃ keys, IsKeyValuesOf table other keys) ∧
        ((∃ row, item = .ok row ∧ RowFails table row error) ∨
          ∃ cause, item = .error cause ∧ error = .source cause) := by
  rw [Outcome.mapM_eq_error_iff]
  simp only [queryFor_eq_error_iff, queryFor_eq_ok_iff]
  constructor
  · rintro ⟨before, item, after, rfl, hbefore, hitem⟩
    obtain ⟨rows, rfl⟩ : ∃ rows : List Partition, before = rows.map .ok :=
      exists_rows_iff.2 fun other hother =>
        (hbefore other hother).elim fun _ ⟨row, hrow, _⟩ => ⟨row, hrow⟩
    refine ⟨rows, item, after, rfl, ?_, hitem⟩
    intro row hrow
    obtain ⟨result, _, heq, _, hkeys⟩ := hbefore _ (List.mem_map_of_mem hrow)
    cases heq
    exact ⟨_, hkeys⟩
  · rintro ⟨rows, item, after, rfl, hrows, hitem⟩
    refine ⟨_, item, after, rfl, ?_, hitem⟩
    rw [List.forall_mem_map]
    intro row hrow
    obtain ⟨keys, hkeys⟩ := hrows row hrow
    exact ⟨query mapper table groups keys, row, rfl, isMadeBy_iff.2 rfl, hkeys⟩

end

/-! ## Outcomes -/

/-- What the groups of a data mapper expand to over a table of a catalog. -/
inductive ExpandsTo (catalog : Catalog) (mapper : Mapper) (table : Table) (groups : List Group) :
    Except CompileError (List Query) → Prop
  /-- Without groups there is nothing to search for, whatever the partitions are. -/
  | nothing : groups = [] → ExpandsTo catalog mapper table groups (.ok [])
  /-- A table without partition keys is searched as a whole. -/
  | whole {result : Query} : groups ≠ [] → table.partitionKeys = [] →
      result.IsMadeBy mapper table groups → result.partitionKeys = [] →
      ExpandsTo catalog mapper table groups (.ok [result])
  /-- Every row has a value for each key: there is a query for each, in the order of the rows. -/
  | rows {rows : List Partition} {queries : List Query} : groups ≠ [] → table.partitionKeys ≠ [] →
      (catalog.partitions table.database table.name).delivered = rows.map .ok →
      List.Forall₂ (IsQueryOf mapper table groups) rows queries →
      ExpandsTo catalog mapper table groups (.ok queries)
  /-- A row fails, and nothing before it does. -/
  | rowFails {before : List Partition} {row : Partition}
      {after : List (Except SourceError Partition)} {error : CompileError} :
      groups ≠ [] → table.partitionKeys ≠ [] →
      (catalog.partitions table.database table.name).delivered =
        before.map .ok ++ .ok row :: after →
      (∀ other ∈ before, ∃ keys, IsKeyValuesOf table other keys) → RowFails table row error →
      ExpandsTo catalog mapper table groups (.error error)
  /-- The feed fails, and no row before that does. -/
  | feedFails {before : List Partition} {error : SourceError}
      {after : List (Except SourceError Partition)} :
      groups ≠ [] → table.partitionKeys ≠ [] →
      (catalog.partitions table.database table.name).delivered =
        before.map .ok ++ .error error :: after →
      (∀ other ∈ before, ∃ keys, IsKeyValuesOf table other keys) →
      ExpandsTo catalog mapper table groups (.error (.source error))

section
variable {catalog : Catalog} {mapper : Mapper} {table : Table} {groups : List Group}

/-- Groups that expand do so to one query for each row of the table. -/
theorem outcome_eq_ok_iff {queries : List Query} :
    (expand catalog mapper table groups).outcome = .ok queries ↔
      ExpandsTo catalog mapper table groups (.ok queries) := by
  rw [expand_eq_ok_iff]
  constructor
  · rintro (⟨hgroups, rfl⟩ | ⟨hgroups, rows, hrows, hqueries⟩)
    · exact .nothing hgroups
    by_cases hkeys : table.partitionKeys = []
    · cases (catalog.rowsOf_of_keyless hkeys).symm.trans hrows
      obtain ⟨result, rest, ⟨hmade, hnone⟩, hrest, rfl⟩ := List.forall₂_cons_left_iff.1 hqueries
      cases hrest
      exact .whole hgroups hkeys hmade ((isKeyValuesOf_nil_iff hkeys).1 hnone)
    · exact .rows hgroups hkeys ((Catalog.rowsOf_eq_ok_iff hkeys).1 hrows) hqueries
  · intro h
    cases h with
    | nothing hgroups => exact .inl ⟨hgroups, rfl⟩
    | whole hgroups hkeys hmade hnone =>
      exact .inr ⟨hgroups, _, catalog.rowsOf_of_keyless hkeys,
        .cons ⟨hmade, (isKeyValuesOf_nil_iff hkeys).2 hnone⟩ .nil⟩
    | rows hgroups hkeys hrows hqueries =>
      exact .inr ⟨hgroups, _, (Catalog.rowsOf_eq_ok_iff hkeys).2 hrows, hqueries⟩

/-- Groups that do not expand fail at the first row that does, or where the feed fails. -/
theorem outcome_eq_error_iff {error : CompileError} :
    (expand catalog mapper table groups).outcome = .error error ↔
      ExpandsTo catalog mapper table groups (.error error) := by
  by_cases hidle : groups = [] ∨ table.partitionKeys = []
  · obtain ⟨queries, hqueries⟩ :
        ∃ queries, (expand catalog mapper table groups).outcome = .ok queries := by
      by_cases hgroups : groups = []
      · exact ⟨[], outcome_eq_ok_iff.2 (.nothing hgroups)⟩
      · exact ⟨[query mapper table groups []], outcome_eq_ok_iff.2
          (.whole hgroups (hidle.resolve_left hgroups) (isMadeBy_iff.2 rfl) rfl)⟩
    rw [hqueries]
    constructor
    · intro h
      cases h
    · intro h
      cases h with
      | rowFails hgroups hkeys | feedFails hgroups hkeys =>
        exact absurd hidle (not_or.2 ⟨hgroups, hkeys⟩)
  · obtain ⟨hgroups, hkeys⟩ := not_or.1 hidle
    rw [outcome_expand hgroups hkeys, mapM_queryFor_eq_error_iff]
    constructor
    · rintro ⟨before, item, after, hitems, hbefore, ⟨row, rfl, hfails⟩ | ⟨cause, rfl, rfl⟩⟩
      · exact .rowFails hgroups hkeys hitems hbefore hfails
      · exact .feedFails hgroups hkeys hitems hbefore
    · intro h
      cases h with
      | rowFails _ _ hitems hbefore hfails =>
        exact ⟨_, _, _, hitems, hbefore, .inl ⟨_, rfl, hfails⟩⟩
      | feedFails _ _ hitems hbefore => exact ⟨_, _, _, hitems, hbefore, .inr ⟨_, rfl, rfl⟩⟩

/-- Expanding groups comes to exactly what `ExpandsTo` says. -/
theorem outcome_expand_iff {outcome : Except CompileError (List Query)} :
    (expand catalog mapper table groups).outcome = outcome ↔
      ExpandsTo catalog mapper table groups outcome := by
  cases outcome with
  | ok queries => exact outcome_eq_ok_iff
  | error error => exact outcome_eq_error_iff

end

/-! A table by year and site of which the third row, on the second page, has no year. -/

namespace Samples

/-- The table. -/
def table : Table :=
  ⟨"lab", "samples", [⟨"donor", "int"⟩], [⟨"year", "int"⟩, ⟨"site", "string"⟩]⟩

/-- The data mapper, which does not say whether old versions are deleted. -/
def mapper : Mapper :=
  ⟨"samples", .athena, .glue, "lab", "samples", ["donor"], .parquet, some "eraser", none⟩

/-- The groups. -/
def groups : List Group :=
  [.simple "donor" [.integer 7]]

/-- The catalog that delivers the first rows of the table. -/
def catalog (count : Nat) : Catalog where
  table _ _ := .ok table
  partitions _ _ :=
    .paged 2 ([⟨["2010", "A"]⟩, ⟨["2011", "10"]⟩, ⟨["later", "B"]⟩, ⟨[]⟩].take count)

/-- The query for a year and a site. -/
def query (year : Int64) (site : String) : Query :=
  ⟨"samples", .athena, .parquet, "lab", "samples", groups,
    [⟨"year", .integer year⟩, ⟨"site", .text site⟩], some "eraser", true⟩

end Samples

theorem outcome_expand_samples :
    ExpandsTo (Samples.catalog 2) Samples.mapper Samples.table Samples.groups
        (.ok [Samples.query 2010 "A", Samples.query 2011 "10"]) ∧
      ExpandsTo (Samples.catalog 4) Samples.mapper Samples.table Samples.groups
        (.error (.column (.uncastable "year" "later" .int))) :=
  ⟨outcome_expand_iff.1 (by decide +kernel), outcome_expand_iff.1 (by decide +kernel)⟩

end Expunge.Expansion
