import Expunge.Proofs.Expansion.Rows
import Expunge.Proofs.Source.Paging

/-!
# Pages that an expansion fetches

Expanding groups asks for one row of a table after the other, and stops at the first one that fails.
So it fetches the pages that a consumer fetches who asks for the rows up to that one
(`pages_overFeed`): all of them if no row fails, and otherwise those up to the page on which the row
stands that does (`fetches_iff`). The size of the pages has no part in what it comes to.
-/

namespace Expunge.Expansion

/-- What expanding groups over a table of a catalog held in memory fails with, if it does, and how
many pages it has fetched by then. -/
inductive Fetches (entries : List CatalogEntry) (pageSize : Nat) (table : Table)
    (groups : List Group) : Option CompileError → Nat → Prop
  /-- Without groups or without partition keys, no partition is asked for. -/
  | idle : groups = [] ∨ table.partitionKeys = [] → Fetches entries pageSize table groups none 0
  | unlisted {error : SourceError} : groups ≠ [] → table.partitionKeys ≠ [] →
      CatalogEntry.find entries table.database table.name = .error error →
      Fetches entries pageSize table groups (some (.source error)) 0
  /-- Every row has a value for each key: all rows are asked for. -/
  | toEnd {entry : CatalogEntry} : groups ≠ [] → table.partitionKeys ≠ [] →
      CatalogEntry.find entries table.database table.name = .ok entry →
      (∀ row ∈ entry.partitions, ∃ keys, IsKeyValuesOf table row keys) →
      Fetches entries pageSize table groups none (entry.partitions.length ⌈/⌉ max pageSize 1)
  /-- A row fails, and nothing before it does: no row after it is asked for. -/
  | upTo {entry : CatalogEntry} {before after : List Partition} {row : Partition}
      {error : CompileError} : groups ≠ [] → table.partitionKeys ≠ [] →
      CatalogEntry.find entries table.database table.name = .ok entry →
      entry.partitions = before ++ row :: after →
      (∀ other ∈ before, ∃ keys, IsKeyValuesOf table other keys) → RowFails table row error →
      Fetches entries pageSize table groups (some error) (before.length / max pageSize 1 + 1)

section
variable {mapper : Mapper} {table : Table} {groups : List Group}

/-! ## Readings -/

/-- A row without an error for its keys has values for them. -/
theorem exists_isKeyValuesOf_or_rowFails (table : Table) (row : Partition) :
    (∃ keys, IsKeyValuesOf table row keys) ∨ ∃ error, RowFails table row error := by
  simp only [← keyValues_eq_ok_iff, ← keyValues_eq_error_iff]
  cases keyValues table row <;> simp

/-- Of rows either each has values for the keys, or there is a first one that fails. -/
theorem all_or_first_fails (table : Table) (rows : List Partition) :
    (∀ row ∈ rows, ∃ keys, IsKeyValuesOf table row keys) ∨
      ∃ before row after error, rows = before ++ row :: after ∧
        (∀ other ∈ before, ∃ keys, IsKeyValuesOf table other keys) ∧
        RowFails table row error := by
  induction rows with
  | nil => exact .inl (by simp)
  | cons row rows ih =>
    rcases exists_isKeyValuesOf_or_rowFails table row with hrow | ⟨error, hfails⟩
    · rcases ih with hall | ⟨before, last, after, error, rfl, hbefore, hfails⟩
      · exact .inl (List.forall_mem_cons.2 ⟨hrow, hall⟩)
      · exact .inr ⟨row :: before, last, after, error, rfl,
          List.forall_mem_cons.2 ⟨hrow, hbefore⟩, hfails⟩
    · exact .inr ⟨[], row, rows, error, rfl, by simp, hfails⟩

/-- A pass over a feed fetches the pages of a consumer who asks for the rows that have values for
the keys, and then once more: that is for the failure, or for the end of the feed. -/
theorem pages_overFeed {feed : Feed} {rows : List Partition}
    {others : List (Except SourceError Partition)}
    (delivered : List (Except SourceError Partition)) (pages : Nat)
    (hfeed : feed.delivered = rows.map .ok ++ others)
    (hrows : ∀ row ∈ rows, ∃ keys, IsKeyValuesOf table row keys)
    (hothers : ∀ item ∈ others.head?, ∃ error, queryFor mapper table groups item = .error error) :
    (Feed.Reading.polls ⟨delivered, pages, feed⟩ (rows.length + 1)).pages =
      pages + (overFeed mapper table groups feed).pages := by
  induction feed generalizing rows delivered pages with
  | nil =>
    rw [Feed.Reading.polls_nil]
    rfl
  | cons step rest ih =>
    cases step with
    | page =>
      rw [Feed.Reading.polls_page, ih _ _ hfeed hrows, overFeed, Run.pages_pageFetch_bind,
        Nat.add_assoc]
    | fault error =>
      cases rows with
      | nil =>
        rw [List.length_nil, Feed.Reading.polls_fault]
        rfl
      | cons row rows => cases hfeed
    | row row =>
      have hitems : .ok row :: Feed.delivered rest = rows.map .ok ++ others := hfeed
      rw [Feed.Reading.polls_row, overFeed]
      cases rows with
      | nil =>
        -- the row is the first of the others: it fails, and nothing after it is asked for
        obtain rfl : .ok row :: Feed.delivered rest = others := hitems
        obtain ⟨error, herror⟩ := hothers (.ok row) rfl
        obtain ⟨_, ⟨⟩, hfails⟩ | ⟨_, ⟨⟩, _⟩ := queryFor_eq_error_iff.1 herror
        rw [keyValues_eq_error_iff.2 hfails, Run.pages_error_bind]
        rfl
      | cons first rows =>
        rw [List.map_cons, List.cons_append, List.cons_eq_cons] at hitems
        obtain ⟨⟨⟩, hleft⟩ := hitems
        obtain ⟨⟨keys, hkeys⟩, hgood⟩ := List.forall_mem_cons.1 hrows
        rw [keyValues_eq_ok_iff.2 hkeys, Run.pages_ok_bind, List.length_cons, ih _ _ hleft hgood]
        cases hrest : (overFeed mapper table groups rest).outcome with
        | error error => rw [Run.pages_bind_of_error hrest]
        | ok queries => rw [Run.pages_bind_of_ok hrest, Run.pages_pure, Nat.add_zero]

end

/-! ## Expansions over a catalog held in memory -/

section
variable {entries : List CatalogEntry} {pageSize : Nat} {mapper : Mapper} {table : Table}
  {groups : List Group}

/-- With groups and partition keys, the pages are those of a pass over the partitions. -/
theorem pages_expand {catalog : Catalog} (hgroups : groups ≠ [])
    (hkeys : table.partitionKeys ≠ []) :
    (expand catalog mapper table groups).pages =
      (overFeed mapper table groups (catalog.partitions table.database table.name)).pages := by
  rw [expand, if_neg (by simpa using hgroups), if_pos (by simpa [Table.isPartitioned] using hkeys),
    Run.pages_emit_bind (by simp)]

/-- A pass over rows in pages takes the pages on which the rows stand that have values for the keys,
and the page of the first row that fails. -/
theorem pages_overFeed_paged {rows : List Partition} (count : Nat)
    (hrows : ∀ row ∈ rows.take count, ∃ keys, IsKeyValuesOf table row keys)
    (hfails : ∀ row ∈ (rows.drop count).head?, ∃ error, RowFails table row error) :
    (overFeed mapper table groups (.paged pageSize rows)).pages =
      min (count + 1) rows.length ⌈/⌉ max pageSize 1 := by
  have hdelivered : (Feed.paged pageSize rows).delivered =
      (rows.take count).map .ok ++ (rows.drop count).map .ok := by
    rw [Feed.delivered_paged, ← List.map_append, List.take_append_drop]
  have hothers : ∀ item ∈ ((rows.drop count).map Except.ok).head?,
      ∃ error, queryFor mapper table groups item = .error error := by
    simp only [List.head?_map, Option.mem_def, Option.map_eq_some_iff]
    rintro _ ⟨row, hrow, rfl⟩
    obtain ⟨error, herror⟩ := hfails row hrow
    exact ⟨error, queryFor_eq_error_iff.2 (.inl ⟨row, rfl, herror⟩)⟩
  have hpages := pages_overFeed [] 0 hdelivered hrows hothers
  rw [Nat.zero_add] at hpages
  rw [← hpages]
  refine ((Feed.isPaged_paged pageSize rows).pages_eq _).trans ?_
  congr 1
  rw [List.length_take]
  omega

/-- What is said of an expansion is what it does. -/
theorem Fetches.eq {failure : Option CompileError} {count : Nat}
    (h : Fetches entries pageSize table groups failure count) (mapper : Mapper) :
    Outcome.error? (expand (.ofEntries pageSize entries) mapper table groups).outcome = failure ∧
      (expand (.ofEntries pageSize entries) mapper table groups).pages = count := by
  cases h with
  | idle hidle =>
    rcases hidle with rfl | hkeys
    · exact ⟨rfl, rfl⟩
    · rw [expand]
      split
      · exact ⟨rfl, rfl⟩
      · rw [if_neg (by simpa [Table.isPartitioned] using hkeys)]
        exact ⟨rfl, rfl⟩
  | unlisted hgroups hkeys hfind =>
    rw [outcome_expand hgroups hkeys, pages_expand hgroups hkeys, Catalog.ofEntries]
    simp only [hfind]
    exact ⟨rfl, rfl⟩
  | @toEnd entry hgroups hkeys hfind hall =>
    rw [outcome_expand hgroups hkeys, pages_expand hgroups hkeys, Catalog.ofEntries]
    simp only [hfind]
    constructor
    · rw [Feed.delivered_paged, Outcome.error?_eq_none_iff]
      obtain ⟨queries, hqueries⟩ : ∃ queries,
          List.Forall₂ (IsQueryOf mapper table groups) entry.partitions queries := by
        refine Outcome.exists_forall₂ fun row hrow => ?_
        obtain ⟨keys, hkeys⟩ := hall row hrow
        exact ⟨query mapper table groups keys, isMadeBy_iff.2 rfl, hkeys⟩
      exact ⟨queries, mapM_queryFor_eq_ok_iff.2 ⟨_, rfl, hqueries⟩⟩
    · rw [pages_overFeed_paged entry.partitions.length (by simpa using hall) (by simp),
        Nat.min_eq_right (Nat.le_succ _)]
  | @upTo entry before after row error hgroups hkeys hfind hrows hbefore hfails =>
    rw [outcome_expand hgroups hkeys, pages_expand hgroups hkeys, Catalog.ofEntries]
    simp only [hfind, hrows]
    constructor
    · rw [Feed.delivered_paged, Outcome.error?_eq_some_iff, mapM_queryFor_eq_error_iff]
      exact ⟨before, .ok row, after.map .ok, by simp, hbefore, .inl ⟨row, rfl, hfails⟩⟩
    · rw [pages_overFeed_paged before.length (by simpa using hbefore)
        (by simpa using ⟨error, hfails⟩), Nat.min_eq_left (by simp),
        succ_ceilDiv _ (Nat.lt_of_lt_of_le Nat.zero_lt_one (Nat.le_max_right _ _))]

/-- Something is said of every expansion. -/
theorem exists_fetches (entries : List CatalogEntry) (pageSize : Nat) (table : Table)
    (groups : List Group) :
    ∃ failure count, Fetches entries pageSize table groups failure count := by
  by_cases hidle : groups = [] ∨ table.partitionKeys = []
  · exact ⟨_, _, .idle hidle⟩
  obtain ⟨hgroups, hkeys⟩ := not_or.1 hidle
  cases hfind : CatalogEntry.find entries table.database table.name with
  | error error => exact ⟨_, _, .unlisted hgroups hkeys hfind⟩
  | ok entry =>
    rcases all_or_first_fails table entry.partitions with
      hall | ⟨_, _, _, _, hrows, hbefore, hfails⟩
    · exact ⟨_, _, .toEnd hgroups hkeys hfind hall⟩
    · exact ⟨_, _, .upTo hgroups hkeys hfind hrows hbefore hfails⟩

theorem fetches_iff {failure : Option CompileError} {count : Nat} :
    Fetches entries pageSize table groups failure count ↔
      Outcome.error? (expand (.ofEntries pageSize entries) mapper table groups).outcome = failure ∧
        (expand (.ofEntries pageSize entries) mapper table groups).pages = count := by
  refine ⟨fun h => h.eq mapper, ?_⟩
  rintro ⟨rfl, rfl⟩
  obtain ⟨failure, count, h⟩ := exists_fetches entries pageSize table groups
  obtain ⟨rfl, rfl⟩ := h.eq mapper
  exact h

end

end Expunge.Expansion
