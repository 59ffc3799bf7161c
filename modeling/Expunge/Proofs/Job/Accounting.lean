import Expunge.Proofs.Job.Concurrent

/-!
# What a job makes of its items

Every item of a registry comes to an outcome of its own (`outcomeOf`), which no other item has a
part in. A job ends with the first outcome that its policy lets end it (`IsFirstEnd`), and otherwise
its report accounts for every record exactly once (`Accounts`). `IsAccounted` puts this together for
a job, and `generate_isAccounted` says that jobs do so under every bound on concurrency.
-/

namespace Expunge.Job

/-! ## Outcomes -/

/-- What an item of a registry comes to: an error that stands in the place of a record, the error of
a record that configures no data mapper, or else what the record's dataset compiles to. -/
def outcomeOf (catalog : Catalog) (requests : List Match) :
    Except SourceError MapperRecord → Except CompileError (List Query)
  | .error error => .error (.source error)
  | .ok record =>
    match Mapper.ofRecord record with
    | .error error => .error (.configuration error)
    | .ok mapper => (compileMapper catalog requests mapper).outcome

/-- The errors that end a job: under one policy all of them, under the other those of a source. -/
def Ends : FailurePolicy → CompileError → Prop
  | .abort, _ => True
  | .skip, error => ∃ source, error = .source source

/-- The first of some outcomes that ends a job, in their order, is an error. -/
def IsFirstEnd (policy : FailurePolicy) (outcomes : List (Except CompileError (List Query)))
    (error : CompileError) : Prop :=
  ∃ before after, outcomes = before ++ .error error :: after ∧ Ends policy error ∧
    ∀ other, .error other ∈ before → ¬ Ends policy other

/-- Queries and failures account for the records of a registry one by one, in order: a record that
compiles adds its queries, and any other one adds a failure under its id. -/
inductive Accounts (outcome : Except SourceError MapperRecord → Except CompileError (List Query)) :
    Registry → List Query → List Failure → Prop
  | nil : Accounts outcome [] [] []
  | compiled {record : MapperRecord} {rest : Registry} {queries others : List Query}
      {failures : List Failure} : outcome (.ok record) = .ok queries →
      Accounts outcome rest others failures →
      Accounts outcome (.ok record :: rest) (queries ++ others) failures
  | failed {record : MapperRecord} {rest : Registry} {queries : List Query}
      {failures : List Failure} {error : CompileError} : outcome (.ok record) = .error error →
      Accounts outcome rest queries failures →
      Accounts outcome (.ok record :: rest) queries (⟨record.id, error⟩ :: failures)

/-- What a job comes to is what its queue, its policy and the outcomes of its items ask for. -/
structure IsAccounted (policy : FailurePolicy) (sources : Sources) (job : String)
    (result : Except CompileError Report) : Prop where
  /-- A queue that cannot be read ends the job. -/
  queue : ∀ error, sources.queue job = .error error → result = .error (.source error)
  /-- The job fails with the first outcome that ends it, and in no other case. -/
  failed : ∀ requests, sources.queue job = .ok requests → ∀ error,
    result = .error error ↔
      IsFirstEnd policy (sources.mappers.map (outcomeOf sources.catalog requests)) error
  /-- Without such an outcome the report accounts for every record. -/
  reported : ∀ requests, sources.queue job = .ok requests → ∀ report,
    result = .ok report ↔
      (∀ item ∈ sources.mappers, ∀ error,
        outcomeOf sources.catalog requests item = .error error → ¬ Ends policy error) ∧
      Accounts (outcomeOf sources.catalog requests) sources.mappers report.queries report.failures
  /-- Where every error ends the job, no failure is ever reported. -/
  complete : policy = .abort → ∀ report, result = .ok report → report.failures = []
  /-- The queries are those that the job has without the records that fail. -/
  isolated : ∀ requests, sources.queue job = .ok requests → ∀ report, result = .ok report →
    (generate policy { sources with
      mappers := sources.mappers.filter fun item =>
        (outcomeOf sources.catalog requests item).isOk } job).outcome = .ok ⟨report.queries, []⟩

/-! ## One item -/

section
variable {policy : FailurePolicy} {catalog : Catalog} {requests : List Match}

/-- Compiling an item comes to its outcome. -/
theorem outcome_compileItem (item : Except SourceError MapperRecord) :
    (compileItem catalog requests item).outcome = outcomeOf catalog requests item := by
  cases item with
  | error error => rfl
  | ok record =>
    rw [compileItem, outcomeOf]
    cases Mapper.ofRecord record <;> rfl

theorem endsJob_eq_true_iff {error : CompileError} :
    error.endsJob policy = true ↔ Ends policy error := by
  cases policy <;> cases error <;> simp [CompileError.endsJob, Ends]

/-- An item that compiles adds its queries to the report. -/
theorem settle_of_ok {report : Report} {item : Except SourceError MapperRecord}
    {queries : List Query} (h : outcomeOf catalog requests item = .ok queries) :
    report.settle policy item (compileItem catalog requests item).outcome =
      .ok { report with queries := report.queries ++ queries } := by
  rw [outcome_compileItem, h, Report.settle]

/-- An item whose error ends the job does so. -/
theorem settle_of_ends {report : Report} {item : Except SourceError MapperRecord}
    {error : CompileError} (h : outcomeOf catalog requests item = .error error)
    (hends : Ends policy error) :
    report.settle policy item (compileItem catalog requests item).outcome = .error error := by
  rw [outcome_compileItem, h]
  cases item with
  | error source => rfl
  | ok record => rw [Report.settle, if_pos (endsJob_eq_true_iff.2 hends)]

/-- An item with any other error is a record, and adds a failure to the report. -/
theorem settle_of_not_ends (report : Report) {item : Except SourceError MapperRecord}
    {error : CompileError} (h : outcomeOf catalog requests item = .error error)
    (hends : ¬ Ends policy error) :
    ∃ record, item = .ok record ∧
      report.settle policy item (compileItem catalog requests item).outcome =
        .ok { report with failures := report.failures ++ [⟨record.id, error⟩] } := by
  rw [outcome_compileItem, h]
  cases item with
  | error source =>
    cases h
    cases policy with
    | abort => exact absurd trivial hends
    | skip => exact absurd ⟨source, rfl⟩ hends
  | ok record =>
    refine ⟨record, rfl, ?_⟩
    rw [Report.settle, if_neg (mt endsJob_eq_true_iff.1 hends)]

/-! ## All items -/

theorem isFirstEnd_cons_iff {outcome : Except CompileError (List Query)}
    {outcomes : List (Except CompileError (List Query))} {error : CompileError} :
    IsFirstEnd policy (outcome :: outcomes) error ↔
      (outcome = .error error ∧ Ends policy error) ∨
      ((∀ other, outcome = .error other → ¬ Ends policy other) ∧
        IsFirstEnd policy outcomes error) := by
  constructor
  · rintro ⟨before, after, heq, hends, hbefore⟩
    cases before with
    | nil =>
      cases heq
      exact .inl ⟨rfl, hends⟩
    | cons first before =>
      cases heq
      refine .inr ⟨?_, before, after, rfl, hends, ?_⟩
      · rintro other rfl
        exact hbefore other List.mem_cons_self
      · intro other hother
        exact hbefore other (List.mem_cons_of_mem _ hother)
  · rintro (⟨rfl, hends⟩ | ⟨hfirst, before, after, rfl, hends, hbefore⟩)
    · exact ⟨[], outcomes, rfl, hends, by simp⟩
    · refine ⟨outcome :: before, after, rfl, hends, ?_⟩
      intro other hother
      rcases List.mem_cons.1 hother with heq | hother
      · exact hfirst other heq.symm
      · exact hbefore other hother

/-- The items of a registry end a job with the first outcome that ends it. -/
theorem compileItems_eq_error_iff {registry : Registry} {report : Report} {error : CompileError} :
    (compileItems policy catalog requests report registry).outcome = .error error ↔
      IsFirstEnd policy (registry.map (outcomeOf catalog requests)) error := by
  induction registry generalizing report with
  | nil => simp [compileItems, IsFirstEnd]
  | cons item rest ih =>
    rw [outcome_compileItems_cons, List.map_cons, isFirstEnd_cons_iff]
    cases hout : outcomeOf catalog requests item with
    | ok queries =>
      rw [settle_of_ok hout]
      refine ih.trans ?_
      simp
    | error other =>
      by_cases hends : Ends policy other
      · rw [settle_of_ends hout hends]
        constructor
        · intro h
          cases h
          exact .inl ⟨rfl, hends⟩
        · rintro (⟨heq, _⟩ | ⟨hnot, _⟩)
          · cases heq
            rfl
          · exact absurd hends (hnot other rfl)
      · obtain ⟨record, rfl, hsettle⟩ := settle_of_not_ends report hout hends
        rw [hsettle]
        constructor
        · intro h
          refine .inr ⟨?_, ih.1 h⟩
          rintro _ heq
          cases heq
          exact hends
        · rintro (⟨heq, hends'⟩ | ⟨_, hrest⟩)
          · cases heq
            exact absurd hends' hends
          · exact ih.2 hrest

/-- Unless an outcome ends the job, the report grows by what accounts for the records. -/
theorem compileItems_eq_ok_iff_accounts {registry : Registry} {report final : Report} :
    (compileItems policy catalog requests report registry).outcome = .ok final ↔
      (∀ item ∈ registry, ∀ error, outcomeOf catalog requests item = .error error →
        ¬ Ends policy error) ∧
      ∃ queries failures, Accounts (outcomeOf catalog requests) registry queries failures ∧
        final = ⟨report.queries ++ queries, report.failures ++ failures⟩ := by
  induction registry generalizing report with
  | nil =>
    constructor
    · intro h
      cases h
      exact ⟨by simp, [], [], .nil, by simp⟩
    · rintro ⟨_, queries, failures, haccounts, rfl⟩
      cases haccounts
      simp [compileItems]
  | cons item rest ih =>
    rw [outcome_compileItems_cons, List.forall_mem_cons]
    cases hout : outcomeOf catalog requests item with
    | ok queries =>
      rw [settle_of_ok hout]
      refine ih.trans ?_
      constructor
      · rintro ⟨hrest, others, failures, haccounts, rfl⟩
        cases item with
        | error source => cases hout
        | ok record =>
          exact ⟨⟨by simp, hrest⟩, queries ++ others, failures, .compiled hout haccounts, by simp⟩
      · rintro ⟨⟨_, hrest⟩, _, failures, haccounts, rfl⟩
        refine ⟨hrest, ?_⟩
        cases haccounts with
        | compiled hqueries haccounts =>
          rw [hout] at hqueries
          cases hqueries
          exact ⟨_, failures, haccounts, by simp⟩
        | failed herror _ =>
          rw [hout] at herror
          cases herror
    | error error =>
      by_cases hends : Ends policy error
      · rw [settle_of_ends hout hends]
        constructor
        · intro h
          cases h
        · rintro ⟨⟨hnot, _⟩, _⟩
          exact absurd hends (hnot error rfl)
      · obtain ⟨record, rfl, hsettle⟩ := settle_of_not_ends report hout hends
        rw [hsettle]
        refine ih.trans ?_
        constructor
        · rintro ⟨hrest, queries, failures, haccounts, rfl⟩
          refine ⟨⟨?_, hrest⟩, queries, _, .failed hout haccounts, by simp⟩
          rintro _ heq
          cases heq
          exact hends
        · rintro ⟨⟨_, hrest⟩, queries, _, haccounts, rfl⟩
          refine ⟨hrest, ?_⟩
          cases haccounts with
          | compiled hqueries _ =>
            rw [hout] at hqueries
            cases hqueries
          | failed herror haccounts =>
            rw [hout] at herror
            cases herror
            exact ⟨queries, _, haccounts, by simp⟩

/-- Where every item compiles, nothing is counted as a failure. -/
theorem Accounts.failures_eq_nil {registry : Registry} {queries : List Query}
    {failures : List Failure} {outcome : Except SourceError MapperRecord → _}
    (h : Accounts outcome registry queries failures)
    (hall : ∀ item ∈ registry, ∀ error, outcome item ≠ .error error) : failures = [] := by
  induction h with
  | nil => rfl
  | compiled _ _ ih => exact ih fun item hitem => hall item (List.mem_cons_of_mem _ hitem)
  | failed herror _ _ => exact absurd herror (hall _ List.mem_cons_self _)

/-- The queries of a registry are those of its items that compile. -/
theorem Accounts.filter_isOk {registry : Registry} {queries : List Query} {failures : List Failure}
    {outcome : Except SourceError MapperRecord → _}
    (h : Accounts outcome registry queries failures) :
    Accounts outcome (registry.filter fun item => (outcome item).isOk) queries [] := by
  induction h with
  | nil => exact .nil
  | compiled hqueries _ ih =>
    rw [List.filter_cons_of_pos (by rw [hqueries]; rfl)]
    exact .compiled hqueries ih
  | failed herror _ ih =>
    rw [List.filter_cons_of_neg (by rw [herror]; exact Bool.false_ne_true)]
    exact ih

end

/-! ## Whole jobs -/

section
variable {policy : FailurePolicy} {sources : Sources} {job : String}

theorem outcome_generate_of_ok {requests : List Match} (h : sources.queue job = .ok requests) :
    (generate policy sources job).outcome =
      (compileItems policy sources.catalog requests .empty sources.mappers).outcome := by
  rw [generate, Run.outcome_bind, Run.outcome_ofExcept, h]
  rfl

/-- A job comes to a report that accounts for its records, unless some outcome ends it. -/
theorem generate_eq_ok_iff_accounts {requests : List Match} {report : Report}
    (h : sources.queue job = .ok requests) :
    (generate policy sources job).outcome = .ok report ↔
      (∀ item ∈ sources.mappers, ∀ error,
        outcomeOf sources.catalog requests item = .error error → ¬ Ends policy error) ∧
      Accounts (outcomeOf sources.catalog requests) sources.mappers report.queries
        report.failures := by
  rw [outcome_generate_of_ok h, compileItems_eq_ok_iff_accounts]
  refine and_congr_right fun _ => ?_
  constructor
  · rintro ⟨queries, failures, haccounts, rfl⟩
    exact haccounts
  · intro haccounts
    exact ⟨_, _, haccounts, rfl⟩

/-- Dropping the records that fail from a registry leaves the queries of its job alone. -/
theorem generate_filter_isOk {requests : List Match} {report : Report}
    (hqueue : sources.queue job = .ok requests)
    (h : (generate policy sources job).outcome = .ok report) :
    (generate policy { sources with
      mappers := sources.mappers.filter fun item =>
        (outcomeOf sources.catalog requests item).isOk } job).outcome =
      .ok ⟨report.queries, []⟩ := by
  obtain ⟨hends, haccounts⟩ := (generate_eq_ok_iff_accounts hqueue).1 h
  have hiff := @generate_eq_ok_iff_accounts policy { sources with
    mappers := sources.mappers.filter fun item =>
      (outcomeOf sources.catalog requests item).isOk } job requests ⟨report.queries, []⟩ hqueue
  refine hiff.2 ⟨?_, haccounts.filter_isOk⟩
  intro item hitem
  exact hends item (List.mem_of_mem_filter hitem)

/-- What a job comes to with one data mapper at a time is accounted for. -/
theorem isAccounted_generate : IsAccounted policy sources job (generate policy sources job).outcome
    where
  queue := by
    intro error h
    rw [generate, Run.outcome_bind, Run.outcome_ofExcept, h]
    rfl
  failed := by
    intro requests h error
    rw [outcome_generate_of_ok h]
    exact compileItems_eq_error_iff
  reported := by
    intro requests h report
    exact generate_eq_ok_iff_accounts h
  complete := by
    rintro rfl report h
    obtain ⟨requests, hqueue, _⟩ := generate_eq_ok_iff.1 h
    obtain ⟨hends, haccounts⟩ := (generate_eq_ok_iff_accounts hqueue).1 h
    refine haccounts.failures_eq_nil ?_
    intro item hitem error herror
    exact hends item hitem error herror trivial
  isolated := by
    intro requests hqueue report h
    exact generate_filter_isOk hqueue h

end

/-- Whatever a job comes to, one data mapper at a time or with several of them under way, is
accounted for. -/
theorem generate_isAccounted (policy : FailurePolicy) (sources : Sources) (job : String) :
    IsAccounted policy sources job (generate policy sources job).outcome ∧
      ∀ bound run, Yields policy bound sources job run →
        IsAccounted policy sources job run.outcome := by
  refine ⟨isAccounted_generate, ?_⟩
  intro bound run h
  rw [outcome_eq_of_yields h]
  exact isAccounted_generate

end Expunge.Job
