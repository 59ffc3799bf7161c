import Expunge.Job
import Expunge.Proofs.Expansion
import Expunge.Proofs.Mapper

/-!
# The report of a job, item by item

A job that comes to a report has compiled every item of its registry, and its report is put together
from what the items came to, in the order of the registry (`compileItems_eq_ok_iff`): the queries of
the items that compiled, and a failure for each one that did not.
-/

namespace Expunge.Job

/-- The queries of an item, none if it failed. -/
def queriesOf : Except CompileError (List Query) → List Query
  | .ok queries => queries
  | .error _ => []

/-- The failure that a report counts for an item, if it failed. -/
def failureOf? : Except SourceError MapperRecord → Except CompileError (List Query) → Option Failure
  | .ok record, .error error => some ⟨record.id, error⟩
  | .error _, .error _ => none
  | _, .ok _ => none

section
variable {policy : FailurePolicy} {catalog : Catalog} {requests : List Match}

/-- An item that is no record fails with an error of its source. -/
theorem endsJob_of_compileItem_error {item : SourceError} {error : CompileError}
    (h : (compileItem catalog requests (.error item)).outcome = .error error) :
    error.endsJob policy = true := by
  cases h
  rfl

/-- One item: the job goes on unless the item failed with an error that ends the job, and the report
grows by what the item came to. -/
theorem settle_compileItem_eq_ok_iff {report next : Report}
    {item : Except SourceError MapperRecord} :
    report.settle policy item (compileItem catalog requests item).outcome = .ok next ↔
      (∀ error, (compileItem catalog requests item).outcome = .error error →
        error.endsJob policy = false) ∧
      next = ⟨report.queries ++ queriesOf (compileItem catalog requests item).outcome,
        report.failures ++
          (failureOf? item (compileItem catalog requests item).outcome).toList⟩ := by
  cases hout : (compileItem catalog requests item).outcome with
  | ok queries =>
    constructor
    · intro h
      cases h
      exact ⟨by simp, by simp [queriesOf, failureOf?]⟩
    · rintro ⟨_, rfl⟩
      simp [Report.settle, queriesOf, failureOf?]
  | error error =>
    cases item with
    | error source =>
      have hends : error.endsJob policy = true := endsJob_of_compileItem_error hout
      constructor
      · intro h
        cases h
      · rintro ⟨h, _⟩
        rw [h error rfl] at hends
        cases hends
    | ok record =>
      rw [Report.settle]
      split
      · next hends =>
        constructor
        · intro h
          cases h
        · rintro ⟨h, _⟩
          rw [h error rfl] at hends
          cases hends
      · next hends =>
        rw [Bool.not_eq_true] at hends
        constructor
        · intro h
          cases h
          refine ⟨?_, by simp [queriesOf, failureOf?]⟩
          intro other hother
          cases hother
          exact hends
        · rintro ⟨_, rfl⟩
          simp [queriesOf, failureOf?]

/-- All items: the job comes to a report unless some item failed with an error that ends the job,
and the report is put together from what the items came to. -/
theorem compileItems_eq_ok_iff {registry : Registry} {report final : Report} :
    (compileItems policy catalog requests report registry).outcome = .ok final ↔
      (∀ item ∈ registry, ∀ error, (compileItem catalog requests item).outcome = .error error →
        error.endsJob policy = false) ∧
      final = ⟨report.queries ++
          registry.flatMap fun item => queriesOf (compileItem catalog requests item).outcome,
        report.failures ++
          registry.filterMap fun item =>
            failureOf? item (compileItem catalog requests item).outcome⟩
      := by
  induction registry generalizing report with
  | nil =>
    constructor
    · intro h
      cases h
      simp
    · rintro ⟨_, rfl⟩
      simp [compileItems]
  | cons item rest ih =>
    simp only [compileItems, Run.outcome_bind_eq_ok_iff, Run.outcome_attempt, Except.ok.injEq,
      exists_eq_left', Run.outcome_ofExcept, settle_compileItem_eq_ok_iff, List.forall_mem_cons,
      List.flatMap_cons, List.filterMap_cons]
    constructor
    · rintro ⟨next, ⟨hfirst, rfl⟩, hrest⟩
      obtain ⟨hall, rfl⟩ := ih.1 hrest
      refine ⟨⟨hfirst, hall⟩, ?_⟩
      cases failureOf? item (compileItem catalog requests item).outcome <;> simp
    · rintro ⟨⟨hfirst, hall⟩, rfl⟩
      refine ⟨_, ⟨hfirst, rfl⟩, ih.2 ⟨hall, ?_⟩⟩
      cases failureOf? item (compileItem catalog requests item).outcome <;> simp

/-! ## Records -/

/-- A record compiles if it configures a data mapper that does. -/
theorem compileItem_eq_ok_iff {record : MapperRecord} {queries : List Query} :
    (compileItem catalog requests (.ok record)).outcome = .ok queries ↔
      ∃ mapper, Mapper.ofRecord record = .ok mapper ∧
        (compileMapper catalog requests mapper).outcome = .ok queries := by
  rw [compileItem]
  cases Mapper.ofRecord record <;> simp

/-- A data mapper in no match's scope has no queries; any other one has those of its groups, over a
table that the catalog describes. -/
theorem compileMapper_eq_ok_iff {mapper : Mapper} {queries : List Query} :
    (compileMapper catalog requests mapper).outcome = .ok queries ↔
      ((∀ request ∈ requests, request.appliesTo mapper.id = false) ∧ queries = []) ∨
      ((∃ request ∈ requests, request.appliesTo mapper.id = true) ∧ ∃ table groups,
        catalog.table mapper.database mapper.table = .ok table ∧
        Classification.classify requests mapper table = .ok groups ∧
        (Expansion.expand catalog mapper table groups).outcome = .ok queries) := by
  rw [compileMapper]
  split
  · next hany =>
    rw [List.any_eq_true] at hany
    have hnot : ¬ ∀ request ∈ requests, request.appliesTo mapper.id = false := by
      obtain ⟨request, hmem, happlies⟩ := hany
      intro h
      rw [h request hmem] at happlies
      cases happlies
    simp only [hany, hnot, false_and, true_and, false_or, Run.outcome_bind_eq_ok_iff,
      Run.outcome_emit, exists_const, Run.outcome_ofExcept, Outcome.mapError_eq_ok_iff]
    constructor
    · rintro ⟨table, htable, groups, hgroups, h⟩
      exact ⟨table, groups, htable, hgroups, h⟩
    · rintro ⟨table, groups, htable, hgroups, h⟩
      exact ⟨table, htable, groups, hgroups, h⟩
  · next hany =>
    have hall : ∀ request ∈ requests, request.appliesTo mapper.id = false := by simpa using hany
    have hnot : ¬ ∃ request ∈ requests, request.appliesTo mapper.id = true := by
      simpa using hall
    simp only [hnot, false_and, or_false, and_iff_right hall, Run.outcome_pure, Except.ok.injEq]
    exact eq_comm

end

/-! ## Whole jobs -/

section
variable {policy : FailurePolicy} {sources : Sources} {job : String} {report : Report}

/-- A job that comes to a report has read its queue. -/
theorem generate_eq_ok_iff :
    (generate policy sources job).outcome = .ok report ↔
      ∃ requests, sources.queue job = .ok requests ∧
        (compileItems policy sources.catalog requests .empty sources.mappers).outcome =
          .ok report := by
  simp only [generate, Run.outcome_bind_eq_ok_iff, Run.outcome_ofExcept, Outcome.mapError_eq_ok_iff]

/-- Every item of the registry of a job that comes to a report is a record. It has compiled, and the
report holds its queries, or else the report counts it as a failure. -/
theorem exists_record_of_mem {requests : List Match}
    (h : (compileItems policy sources.catalog requests .empty sources.mappers).outcome = .ok report)
    {item : Except SourceError MapperRecord} (hitem : item ∈ sources.mappers) :
    ∃ record, item = .ok record ∧
      ((∃ queries, (compileItem sources.catalog requests item).outcome = .ok queries ∧
          ∀ query ∈ queries, query ∈ report.queries) ∨
        ∃ error, (compileItem sources.catalog requests item).outcome = .error error ∧
          ⟨record.id, error⟩ ∈ report.failures) := by
  obtain ⟨hends, rfl⟩ := compileItems_eq_ok_iff.1 h
  cases item with
  | error source =>
    have hfalse := hends _ hitem (.source source) rfl
    cases hfalse
  | ok record =>
    refine ⟨record, rfl, ?_⟩
    cases hout : (compileItem sources.catalog requests (.ok record)).outcome with
    | ok queries =>
      refine .inl ⟨queries, rfl, ?_⟩
      intro query hquery
      refine List.mem_append_right _ (List.mem_flatMap.2 ⟨_, hitem, ?_⟩)
      rwa [hout]
    | error error =>
      refine .inr ⟨error, rfl, ?_⟩
      refine List.mem_append_right _ (List.mem_filterMap.2 ⟨_, hitem, ?_⟩)
      rw [hout]
      rfl

/-- Every query of a report comes from a record of the registry: it is one of the queries that the
record's data mapper has for the groups that the matches of the job give. -/
theorem exists_expansion_of_mem_queries {requests : List Match}
    (h : (compileItems policy sources.catalog requests .empty sources.mappers).outcome = .ok report)
    {query : Query} (hquery : query ∈ report.queries) :
    ∃ record mapper table groups queries, .ok record ∈ sources.mappers ∧
      Mapper.ofRecord record = .ok mapper ∧
      sources.catalog.table mapper.database mapper.table = .ok table ∧
      Classification.classify requests mapper table = .ok groups ∧
      (Expansion.expand sources.catalog mapper table groups).outcome = .ok queries ∧
      query ∈ queries := by
  obtain ⟨hends, rfl⟩ := compileItems_eq_ok_iff.1 h
  rw [Report.empty, List.nil_append, List.mem_flatMap] at hquery
  obtain ⟨item, hitem, hquery⟩ := hquery
  cases hout : (compileItem sources.catalog requests item).outcome with
  | error error =>
    rw [hout] at hquery
    cases hquery
  | ok queries =>
    rw [hout, queriesOf] at hquery
    cases item with
    | error source => cases hout
    | ok record =>
      obtain ⟨mapper, hmapper, hout⟩ := compileItem_eq_ok_iff.1 hout
      rcases compileMapper_eq_ok_iff.1 hout with
        ⟨_, rfl⟩ | ⟨_, table, groups, htable, hgroups, hout⟩
      · cases hquery
      · exact ⟨record, mapper, table, groups, queries, hitem, hmapper, htable, hgroups, hout,
          hquery⟩

/-- Every query of a report comes from a record of the registry: it is the query that the record's
data mapper has for some row of its table, with the groups that the matches of the job give. -/
theorem exists_of_mem_queries {requests : List Match}
    (h : (compileItems policy sources.catalog requests .empty sources.mappers).outcome = .ok report)
    {query : Query} (hquery : query ∈ report.queries) :
    ∃ record mapper table groups rows row, .ok record ∈ sources.mappers ∧
      Mapper.ofRecord record = .ok mapper ∧
      sources.catalog.table mapper.database mapper.table = .ok table ∧
      Classification.classify requests mapper table = .ok groups ∧
      sources.catalog.rowsOf table = .ok rows ∧ row ∈ rows ∧
      Expansion.IsQueryOf mapper table groups row query := by
  obtain ⟨record, mapper, table, groups, queries, hrecord, hmapper, htable, hgroups, hexpand,
    hquery⟩ := exists_expansion_of_mem_queries h hquery
  rcases Expansion.expand_eq_ok_iff.1 hexpand with ⟨_, rfl⟩ | ⟨_, rows, hrows, hall⟩
  · cases hquery
  · obtain ⟨row, hrow, hfor⟩ := Outcome.exists_left_of_forall₂ hall hquery
    exact ⟨record, mapper, table, groups, rows, row, hrecord, hmapper, htable, hgroups, hrows,
      hrow, hfor⟩

/-- If a record in some match's scope has compiled, its table is described and the matches give
groups; and if there are any, the record has a query for every row of the table. -/
theorem exists_query_of_mem_rows {catalog : Catalog} {requests : List Match} {record : MapperRecord}
    {queries : List Query} (h : (compileItem catalog requests (.ok record)).outcome = .ok queries)
    {request : Match} (hmem : request ∈ requests) (happlies : request.appliesTo record.id = true) :
    ∃ mapper table groups, Mapper.ofRecord record = .ok mapper ∧
      catalog.table mapper.database mapper.table = .ok table ∧
      Classification.classify requests mapper table = .ok groups ∧
      (groups ≠ [] → ∃ rows, catalog.rowsOf table = .ok rows ∧
        ∀ row ∈ rows, ∃ query ∈ queries, Expansion.IsQueryOf mapper table groups row query) := by
  obtain ⟨mapper, hmapper, h⟩ := compileItem_eq_ok_iff.1 h
  have hid : mapper.id = record.id := (Mapper.ofRecord_eq_ok_iff.1 hmapper).1
  rcases compileMapper_eq_ok_iff.1 h with ⟨hnone, _⟩ | ⟨_, table, groups, htable, hgroups, h⟩
  · rw [← hid, hnone request hmem] at happlies
    cases happlies
  · refine ⟨mapper, table, groups, hmapper, htable, hgroups, ?_⟩
    intro hne
    rcases Expansion.expand_eq_ok_iff.1 h with ⟨hnil, _⟩ | ⟨_, rows, hrows, hall⟩
    · exact absurd hnil hne
    · exact ⟨rows, hrows, fun row hrow => Outcome.exists_right_of_forall₂ hall hrow⟩

end

end Expunge.Job
