import Expunge.Proofs.Job.Accounting
import Expunge.Proofs.Source

/-!
# What a job asks of its catalog

A catalog is asked for a table only if a data mapper has matches in its scope, and for the
partitions of a table only if these matches give groups and the table has partition keys (`Asks`). A
job asks on behalf of one item after the other, as long as no outcome has ended it
(`ConsultsUntilEnd`). With one data mapper at a time a job has a single schedule
(`eq_generate_of_yields`), so what it asks is known call by call.
-/

namespace Expunge

namespace Catalog

/-- A catalog describes tables under the names that it is asked for. -/
def DescribesByName (catalog : Catalog) : Prop :=
  ∀ database name table, catalog.table database name = .ok table →
    table.database = database ∧ table.name = name

theorem describesByName_ofEntries (pageSize : Nat) (entries : List CatalogEntry) :
    (ofEntries pageSize entries).DescribesByName := by
  intro database name table h
  simp only [ofEntries] at h
  cases hfind : CatalogEntry.find entries database name with
  | error error =>
    rw [hfind] at h
    cases h
  | ok entry =>
    rw [hfind] at h
    cases h
    exact CatalogEntry.names_of_find hfind

end Catalog

namespace Expansion

/-- Reading a feed fetches pages and asks for nothing else. -/
theorem calls_overFeed (mapper : Mapper) (table : Table) (groups : List Group) (feed : Feed) :
    (overFeed mapper table groups feed).calls = [] := by
  induction feed with
  | nil => rfl
  | cons step rest ih =>
    cases step with
    | page =>
      rw [overFeed, Run.calls_bind_of_ok (Run.outcome_emit _), ih]
      rfl
    | fault error => rfl
    | row row =>
      rw [overFeed]
      cases keyValues table row with
      | error error => rw [Run.calls_error_bind]
      | ok keys =>
        rw [Run.calls_ok_bind]
        cases hrest : (overFeed mapper table groups rest).outcome with
        | error error => rw [Run.calls_bind_of_error hrest, ih]
        | ok queries => rw [Run.calls_bind_of_ok hrest, ih, Run.calls_pure, List.nil_append]

/-- The partitions of a table are asked for at most once. -/
theorem calls_expand (catalog : Catalog) (mapper : Mapper) (table : Table) (groups : List Group) :
    (expand catalog mapper table groups).calls =
      if groups = [] ∨ table.partitionKeys = [] then []
      else [.partitionListing table.database table.name] := by
  rw [expand]
  cases groups with
  | nil => rfl
  | cons group groups =>
    cases hkeys : table.partitionKeys with
    | nil =>
      have hpart : table.isPartitioned = false := by rw [Table.isPartitioned, hkeys]; rfl
      rw [hpart]
      rfl
    | cons key keys =>
      have hpart : table.isPartitioned = true := by rw [Table.isPartitioned, hkeys]; rfl
      rw [hpart, if_neg (by simp), if_pos rfl, Run.calls_bind_of_ok (Run.outcome_emit _),
        calls_overFeed, if_neg (by simp)]
      rfl

end Expansion

namespace Job

/-! ## What is to be asked -/

section
variable (catalog : Catalog) (requests : List Match)

/-- Why a table that is asked for is not asked for its partitions: the catalog does not describe it,
its columns do not take the matches, the matches give no group, or it has no partition keys. -/
inductive NeedsNoPartitions (mapper : Mapper) : Prop
  | undescribed {error : SourceError} :
    catalog.table mapper.database mapper.table = .error error → NeedsNoPartitions mapper
  | unclassified {table : Table} {error : ColumnError} :
    catalog.table mapper.database mapper.table = .ok table →
    Classification.classify requests mapper table = .error error → NeedsNoPartitions mapper
  | ungrouped {table : Table} : catalog.table mapper.database mapper.table = .ok table →
    Classification.classify requests mapper table = .ok [] → NeedsNoPartitions mapper
  | unpartitioned {table : Table} {groups : List Group} :
    catalog.table mapper.database mapper.table = .ok table →
    Classification.classify requests mapper table = .ok groups → table.partitionKeys = [] →
    NeedsNoPartitions mapper

/-- What is asked of a catalog on behalf of a data mapper: nothing if no match applies to it,
otherwise its table, and then the partitions of this table unless there is no need for them. -/
inductive Asks (mapper : Mapper) : List Event → Prop
  | outOfScope : (∀ request ∈ requests, request.appliesTo mapper.id = false) → Asks mapper []
  | table : (∃ request ∈ requests, request.appliesTo mapper.id = true) →
    NeedsNoPartitions catalog requests mapper →
    Asks mapper [.tableLookup mapper.database mapper.table]
  | partitions {table : Table} {groups : List Group} :
    (∃ request ∈ requests, request.appliesTo mapper.id = true) →
    catalog.table mapper.database mapper.table = .ok table →
    Classification.classify requests mapper table = .ok groups → groups ≠ [] →
    table.partitionKeys ≠ [] →
    Asks mapper [.tableLookup mapper.database mapper.table,
      .partitionListing mapper.database mapper.table]

/-- What is asked of a catalog on behalf of an item of a registry: nothing for an error in the place
of a record and for a record that configures no data mapper. -/
inductive Consults : Except SourceError MapperRecord → List Event → Prop
  | unread {error : SourceError} : Consults (.error error) []
  | unconfigured {record : MapperRecord} {error : ConfigurationError} :
    Mapper.ofRecord record = .error error → Consults (.ok record) []
  | configured {record : MapperRecord} {mapper : Mapper} {calls : List Event} :
    Mapper.ofRecord record = .ok mapper → Asks catalog requests mapper calls →
    Consults (.ok record) calls

/-- What is asked on behalf of items, one after the other. -/
def ConsultsAll (items : Registry) (calls : List Event) : Prop :=
  ∃ parts, List.Forall₂ (Consults catalog requests) items parts ∧ calls = parts.flatten

end

/-- A job asks nothing if its queue cannot be read. If it comes to a report, it has asked on behalf
of all items, and if it fails, on behalf of those up to the first one whose outcome ends it, which
is the one it fails with. In both cases nothing else could have been asked on their behalf. -/
structure ConsultsUntilEnd (policy : FailurePolicy) (sources : Sources) (job : String)
    (run : Run Report) : Prop where
  unread : ∀ error, sources.queue job = .error error → run.calls = []
  reported : ∀ requests, sources.queue job = .ok requests → ∀ report, run.outcome = .ok report →
    ∀ calls, ConsultsAll sources.catalog requests sources.mappers calls ↔ calls = run.calls
  ended : ∀ requests, sources.queue job = .ok requests → ∀ error, run.outcome = .error error →
    ∃ before item after, sources.mappers = before ++ item :: after ∧
      outcomeOf sources.catalog requests item = .error error ∧ Ends policy error ∧
      (∀ other ∈ before, ∀ error, outcomeOf sources.catalog requests other = .error error →
        ¬ Ends policy error) ∧
      ∀ calls, ConsultsAll sources.catalog requests (before ++ [item]) calls ↔ calls = run.calls

/-! ## One data mapper -/

section
variable {catalog : Catalog} {requests : List Match}

/-- Where matches give groups for a table with partition keys, its partitions are needed. -/
theorem NeedsNoPartitions.eq_nil {mapper : Mapper} {table : Table} {groups : List Group}
    (h : NeedsNoPartitions catalog requests mapper)
    (htable : catalog.table mapper.database mapper.table = .ok table)
    (hgroups : Classification.classify requests mapper table = .ok groups) :
    groups = [] ∨ table.partitionKeys = [] := by
  cases h with
  | undescribed herror =>
    rw [htable] at herror
    cases herror
  | unclassified htable' herror =>
    rw [htable] at htable'
    cases htable'
    rw [hgroups] at herror
    cases herror
  | ungrouped htable' hgroups' =>
    rw [htable] at htable'
    cases htable'
    rw [hgroups] at hgroups'
    cases hgroups'
    exact .inl rfl
  | unpartitioned htable' _ hkeys =>
    rw [htable] at htable'
    cases htable'
    exact .inr hkeys

/-- What is asked on behalf of a data mapper is decided by the catalog and the matches. -/
theorem Asks.unique {mapper : Mapper} {calls others : List Event}
    (h : Asks catalog requests mapper calls) (h' : Asks catalog requests mapper others) :
    calls = others := by
  have hclash : (∃ request ∈ requests, request.appliesTo mapper.id = true) →
      ¬ ∀ request ∈ requests, request.appliesTo mapper.id = false := by
    rintro ⟨request, hmem, happlies⟩ hnone
    rw [hnone request hmem] at happlies
    cases happlies
  cases h with
  | outOfScope hnone =>
    cases h' with
    | outOfScope _ => rfl
    | table hscope _ => exact absurd hnone (hclash hscope)
    | partitions hscope => exact absurd hnone (hclash hscope)
  | table hscope hspared =>
    cases h' with
    | outOfScope hnone => exact absurd hnone (hclash hscope)
    | table _ _ => rfl
    | partitions _ htable hgroups hne hkeys =>
      exact absurd (hspared.eq_nil htable hgroups) (not_or.2 ⟨hne, hkeys⟩)
  | partitions hscope htable hgroups hne hkeys =>
    cases h' with
    | outOfScope hnone => exact absurd hnone (hclash hscope)
    | table _ hspared => exact absurd (hspared.eq_nil htable hgroups) (not_or.2 ⟨hne, hkeys⟩)
    | partitions _ _ _ _ _ => rfl

/-- What is asked on behalf of an item is decided as well. -/
theorem Consults.rightUnique : Relator.RightUnique (Consults catalog requests) := by
  intro item calls others h h'
  cases h with
  | unread => cases h'; rfl
  | unconfigured herror =>
    cases h' with
    | unconfigured _ => rfl
    | configured hmapper _ =>
      rw [herror] at hmapper
      cases hmapper
  | configured hmapper hasks =>
    cases h' with
    | unconfigured herror =>
      rw [herror] at hmapper
      cases hmapper
    | configured hmapper' hasks' =>
      rw [hmapper] at hmapper'
      cases hmapper'
      exact hasks.unique hasks'

/-- What is asked on behalf of items cannot be anything else. -/
theorem ConsultsAll.iff_eq {items : Registry} {calls : List Event}
    (h : ConsultsAll catalog requests items calls) (others : List Event) :
    ConsultsAll catalog requests items others ↔ others = calls := by
  refine ⟨?_, fun heq => heq ▸ h⟩
  obtain ⟨parts, hall, rfl⟩ := h
  rintro ⟨parts', hall', rfl⟩
  rw [Consults.rightUnique.forall₂ hall' hall]

/-- Compiling a data mapper asks what is to be asked. The partitions of a table are listed under the
names in its description, so these have to be the ones that the table was asked for under. -/
theorem asks_compileMapper (hnames : catalog.DescribesByName) (mapper : Mapper) :
    Asks catalog requests mapper (compileMapper catalog requests mapper).calls := by
  rw [compileMapper]
  split
  · next hany =>
    have hscope : ∃ request ∈ requests, request.appliesTo mapper.id = true := by
      simpa using hany
    rw [Run.calls_bind_of_ok (Run.outcome_emit _)]
    cases htable : catalog.table mapper.database mapper.table with
    | error error =>
      rw [Outcome.mapError_error, Run.calls_error_bind]
      exact .table hscope (.undescribed htable)
    | ok table =>
      rw [Outcome.mapError_ok, Run.calls_ok_bind]
      cases hgroups : Classification.classify requests mapper table with
      | error error =>
        rw [Outcome.mapError_error, Run.calls_error_bind]
        exact .table hscope (.unclassified htable hgroups)
      | ok groups =>
        rw [Outcome.mapError_ok, Run.calls_ok_bind, Expansion.calls_expand]
        split
        · next hspared =>
          refine .table hscope ?_
          rcases hspared with rfl | hkeys
          · exact .ungrouped htable hgroups
          · exact .unpartitioned htable hgroups hkeys
        · next hneeded =>
          obtain ⟨hne, hkeys⟩ := not_or.1 hneeded
          obtain ⟨hdatabase, hname⟩ := hnames _ _ table htable
          rw [hdatabase, hname]
          exact .partitions hscope htable hgroups hne hkeys
  · next hany =>
    refine .outOfScope ?_
    simpa using hany

/-- Compiling an item of a registry asks what is to be asked on its behalf. -/
theorem consults_compileItem (hnames : catalog.DescribesByName) (requests : List Match)
    (item : Except SourceError MapperRecord) :
    Consults catalog requests item (compileItem catalog requests item).calls := by
  cases item with
  | error error => exact .unread
  | ok record =>
    rw [compileItem]
    cases hmapper : Mapper.ofRecord record with
    | error error => exact .unconfigured hmapper
    | ok mapper => exact .configured hmapper (asks_compileMapper hnames mapper)

end

/-! ## One item after the other -/

section
variable {policy : FailurePolicy} {catalog : Catalog} {requests : List Match}

theorem ConsultsAll.cons {item : Except SourceError MapperRecord} {items : Registry}
    {calls others : List Event} (hfirst : Consults catalog requests item calls)
    (hrest : ConsultsAll catalog requests items others) :
    ConsultsAll catalog requests (item :: items) (calls ++ others) := by
  obtain ⟨parts, hall, rfl⟩ := hrest
  exact ⟨calls :: parts, .cons hfirst hall, rfl⟩

theorem ConsultsAll.singleton {item : Except SourceError MapperRecord} {calls : List Event}
    (h : Consults catalog requests item calls) : ConsultsAll catalog requests [item] calls :=
  ⟨[calls], .cons h .nil, by simp⟩

/-- What an item came to either lets the job go on, and then does not end it, or is the error that
the job ends with. -/
theorem settle_cases (policy : FailurePolicy) (catalog : Catalog) (requests : List Match)
    (report : Report) (item : Except SourceError MapperRecord) :
    (∃ next, report.settle policy item (compileItem catalog requests item).outcome = .ok next ∧
      ∀ error, outcomeOf catalog requests item = .error error → ¬ Ends policy error) ∨
    ∃ error, report.settle policy item (compileItem catalog requests item).outcome = .error error ∧
      outcomeOf catalog requests item = .error error ∧ Ends policy error := by
  cases hout : outcomeOf catalog requests item with
  | ok queries => exact .inl ⟨_, settle_of_ok hout, by simp⟩
  | error error =>
    by_cases hends : Ends policy error
    · exact .inr ⟨error, settle_of_ends hout hends, rfl, hends⟩
    · obtain ⟨_, _, hsettle⟩ := settle_of_not_ends report hout hends
      refine .inl ⟨_, hsettle, ?_⟩
      rintro _ ⟨⟩
      exact hends

/-- An item is asked for before the others, and these only if its outcome lets the job go on. -/
theorem calls_compileItems_cons (report : Report) (item : Except SourceError MapperRecord)
    (rest : Registry) :
    (compileItems policy catalog requests report (item :: rest)).calls =
      (compileItem catalog requests item).calls ++
        (Run.ofExcept (report.settle policy item (compileItem catalog requests item).outcome) >>=
          fun next => compileItems policy catalog requests next rest).calls :=
  Run.calls_bind_of_ok (Run.outcome_attempt _)

/-- A job that comes to a report has asked on behalf of all items. -/
theorem consultsAll_of_ok (hnames : catalog.DescribesByName) {registry : Registry}
    {report final : Report}
    (h : (compileItems policy catalog requests report registry).outcome = .ok final) :
    ConsultsAll catalog requests registry
      (compileItems policy catalog requests report registry).calls := by
  induction registry generalizing report with
  | nil => exact ⟨[], .nil, rfl⟩
  | cons item rest ih =>
    rw [outcome_compileItems_cons] at h
    obtain ⟨next, hsettle, h⟩ := Outcome.bind_eq_ok_iff.1 h
    rw [calls_compileItems_cons, hsettle, Run.calls_ok_bind]
    exact (ih h).cons (consults_compileItem hnames requests item)

/-- A job that fails has asked on behalf of the items up to the first one whose outcome ends it. -/
theorem consultsAll_of_error (hnames : catalog.DescribesByName) {registry : Registry}
    {report : Report} {error : CompileError}
    (h : (compileItems policy catalog requests report registry).outcome = .error error) :
    ∃ before item after, registry = before ++ item :: after ∧
      outcomeOf catalog requests item = .error error ∧ Ends policy error ∧
      (∀ other ∈ before, ∀ error, outcomeOf catalog requests other = .error error →
        ¬ Ends policy error) ∧
      ConsultsAll catalog requests (before ++ [item])
        (compileItems policy catalog requests report registry).calls := by
  induction registry generalizing report with
  | nil => cases h
  | cons item rest ih =>
    rw [outcome_compileItems_cons] at h
    have hfirst := consults_compileItem hnames requests item
    rcases settle_cases policy catalog requests report item with
      ⟨next, hsettle, hgoes⟩ | ⟨other, hsettle, hout, hends⟩
    · rw [hsettle] at h
      obtain ⟨before, last, after, rfl, hout, hends, hbefore, hcalls⟩ := ih h
      refine ⟨item :: before, last, after, rfl, hout, hends, ?_, ?_⟩
      · exact List.forall_mem_cons.2 ⟨hgoes, hbefore⟩
      · rw [calls_compileItems_cons, hsettle, Run.calls_ok_bind]
        exact hcalls.cons hfirst
    · rw [hsettle] at h
      cases h
      refine ⟨[], item, rest, rfl, hout, hends, by simp, ?_⟩
      rw [calls_compileItems_cons, hsettle, Run.calls_error_bind, List.append_nil]
      exact .singleton hfirst

end

/-! ## One data mapper at a time -/

section
variable {policy : FailurePolicy} {bound : Nat} {catalog : Catalog} {requests : List Match}

/-- The events that a job under way has still to cause if it goes on with one data mapper at a time:
those of its oldest task, and then those of the items not yet started. -/
def remainingEvents (policy : FailurePolicy) (catalog : Catalog) (requests : List Match) :
    Progress → List Event
  | ⟨waiting, [], report, _⟩ => (compileItems policy catalog requests report waiting).events
  | ⟨waiting, task :: _, report, _⟩ =>
    task.pending ++
      (Run.ofExcept
          (report.settle policy task.item (compileItem catalog requests task.item).outcome) >>=
        fun next => compileItems policy catalog requests next waiting).events

/-- With one data mapper at a time a step of a job leaves at most one task under way, and the events
are those that were still to come. -/
theorem events_eq_of_step (hbound : bound ≤ 1) {progress next : Progress}
    (h : Step policy bound catalog requests progress next) (hone : progress.started.length ≤ 1) :
    next.started.length ≤ 1 ∧
      next.events ++ remainingEvents policy catalog requests next =
        progress.events ++ remainingEvents policy catalog requests progress := by
  cases h with
  | @start item waiting started report events hroom =>
    have hstarted : started = [] := by
      rw [Nat.max_eq_right hbound] at hroom
      exact List.length_eq_zero_iff.1 (Nat.lt_one_iff.1 hroom)
    subst hstarted
    exact ⟨Nat.le_refl 1, rfl⟩
  | @advance item waiting before after report event pending events =>
    have hnone : before = [] ∧ after = [] := by
      simp only [List.length_append, List.length_cons] at hone
      exact ⟨List.length_eq_zero_iff.1 (by omega), List.length_eq_zero_iff.1 (by omega)⟩
    obtain ⟨rfl, rfl⟩ := hnone
    exact ⟨Nat.le_refl 1, by simp [remainingEvents]⟩
  | @settle item waiting started report next events hsettle =>
    have hstarted : started = [] := by simpa using hone
    subst hstarted
    exact ⟨Nat.zero_le 1, by simp [remainingEvents, hsettle]⟩

/-- With one data mapper at a time a job causes the events that were still to come. -/
theorem events_eq_of_returns (hbound : bound ≤ 1) {progress : Progress} {run : Run Report}
    (h : Returns policy bound catalog requests progress run)
    (hone : progress.started.length ≤ 1) :
    run.events = progress.events ++ remainingEvents policy catalog requests progress := by
  induction h with
  | done => simp [remainingEvents, compileItems]
  | @failed item waiting started report events error hsettle =>
    simp [remainingEvents, hsettle]
  | step hstep _ ih =>
    obtain ⟨hone', hevents⟩ := events_eq_of_step hbound hstep hone
    rw [ih hone', hevents]

/-- With one data mapper at a time a job has one schedule. -/
theorem eq_generate_of_yields (hbound : bound ≤ 1) {sources : Sources} {job : String}
    {run : Run Report} (h : Yields policy bound sources job run) :
    run = generate policy sources job := by
  have houtcome := outcome_eq_of_yields h
  have hevents : run.events = (generate policy sources job).events := by
    rw [Yields] at h
    rw [generate]
    cases hqueue : sources.queue job with
    | error error =>
      rw [hqueue] at h
      rw [h]
      rfl
    | ok requests =>
      rw [hqueue] at h
      exact events_eq_of_returns hbound h (Nat.zero_le 1)
  cases run
  cases houtcome
  cases hevents
  rfl

end

/-! ## Whole jobs -/

theorem consultsUntilEnd_generate {policy : FailurePolicy} {sources : Sources} {job : String}
    (hnames : sources.catalog.DescribesByName) :
    ConsultsUntilEnd policy sources job (generate policy sources job) where
  unread := by
    intro error h
    rw [generate, h]
    rfl
  reported := by
    intro requests h report hreport
    rw [outcome_generate_of_ok h] at hreport
    rw [generate, h]
    exact (consultsAll_of_ok hnames hreport).iff_eq
  ended := by
    intro requests h error herror
    rw [outcome_generate_of_ok h] at herror
    rw [generate, h]
    obtain ⟨before, item, after, hmappers, hout, hends, hbefore, hcalls⟩ :=
      consultsAll_of_error hnames herror
    exact ⟨before, item, after, hmappers, hout, hends, hbefore, hcalls.iff_eq⟩

/-- A job over a catalog held in memory asks it for what is needed and for nothing else, in the
order of its registry and up to the item whose outcome ends it. So does every run of the job that
may have one data mapper under way at a time. -/
theorem consults_until_end (policy : FailurePolicy) (store : TableStore) (pageSize : Nat)
    (queue : String → Except SourceError (List Match)) (registry : Registry) (job : String) :
    ConsultsUntilEnd policy ⟨store.catalog pageSize, queue, registry⟩ job
        (generate policy ⟨store.catalog pageSize, queue, registry⟩ job) ∧
      ∀ bound ≤ 1, ∀ run, Yields policy bound ⟨store.catalog pageSize, queue, registry⟩ job run →
        ConsultsUntilEnd policy ⟨store.catalog pageSize, queue, registry⟩ job run := by
  have hgenerate : ConsultsUntilEnd policy ⟨store.catalog pageSize, queue, registry⟩ job
      (generate policy ⟨store.catalog pageSize, queue, registry⟩ job) :=
    consultsUntilEnd_generate (Catalog.describesByName_ofEntries pageSize store.entries)
  refine ⟨hgenerate, ?_⟩
  intro bound hbound run h
  rw [eq_generate_of_yields hbound h]
  exact hgenerate

end Job

end Expunge
