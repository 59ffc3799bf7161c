import Expunge.Proofs.Expansion.Pages
import Expunge.Proofs.Job.Sources

/-!
# Pages that a job fetches

A job that comes to a report has caused all events of all its items, each item's in their order and
the items among one another in any (`perm_events_of_returns`). So the pages that it has fetched add
up over its items, whatever the bound on concurrency is: an item whose dataset compiles has fetched
all pages of its table, and one that is skipped those up to its failure (`FetchesAll`).
-/

namespace Expunge.Job

/-! ## What is fetched -/

section
variable (entries : List CatalogEntry) (pageSize : Nat) (requests : List Match)

/-- What compiling an item over a catalog held in memory fails with, if it does, and how many pages
it has fetched by then. No page is fetched unless its table is there and its matches are
classified. -/
inductive Fetches : Except SourceError MapperRecord → Option CompileError → Nat → Prop
  | unread {error : SourceError} : Fetches (.error error) (some (.source error)) 0
  | unconfigured {record : MapperRecord} {error : ConfigurationError} :
      Mapper.ofRecord record = .error error →
      Fetches (.ok record) (some (.configuration error)) 0
  | outOfScope {record : MapperRecord} {mapper : Mapper} :
      Mapper.ofRecord record = .ok mapper →
      (∀ request ∈ requests, request.appliesTo mapper.id = false) → Fetches (.ok record) none 0
  | undescribed {record : MapperRecord} {mapper : Mapper} {error : SourceError} :
      Mapper.ofRecord record = .ok mapper →
      (∃ request ∈ requests, request.appliesTo mapper.id = true) →
      CatalogEntry.find entries mapper.database mapper.table = .error error →
      Fetches (.ok record) (some (.source error)) 0
  | unclassified {record : MapperRecord} {mapper : Mapper} {entry : CatalogEntry}
      {error : ColumnError} : Mapper.ofRecord record = .ok mapper →
      (∃ request ∈ requests, request.appliesTo mapper.id = true) →
      CatalogEntry.find entries mapper.database mapper.table = .ok entry →
      Classification.classify requests mapper entry.table = .error error →
      Fetches (.ok record) (some (.column error)) 0
  | classified {record : MapperRecord} {mapper : Mapper} {entry : CatalogEntry}
      {groups : List Group} {failure : Option CompileError} {count : Nat} :
      Mapper.ofRecord record = .ok mapper →
      (∃ request ∈ requests, request.appliesTo mapper.id = true) →
      CatalogEntry.find entries mapper.database mapper.table = .ok entry →
      Classification.classify requests mapper entry.table = .ok groups →
      Expansion.Fetches entries pageSize entry.table groups failure count →
      Fetches (.ok record) failure count

/-- What the items of a registry fetch in all, and the failures of the records that are skipped. -/
inductive FetchesAll : Registry → List Failure → Nat → Prop
  | nil : FetchesAll [] [] 0
  | compiled {item : Except SourceError MapperRecord} {rest : Registry} {failures : List Failure}
      {count total : Nat} : Fetches entries pageSize requests item none count →
      FetchesAll rest failures total → FetchesAll (item :: rest) failures (count + total)
  | skipped {record : MapperRecord} {rest : Registry} {error : CompileError}
      {failures : List Failure} {count total : Nat} :
      Fetches entries pageSize requests (.ok record) (some error) count →
      FetchesAll rest failures total →
      FetchesAll (.ok record :: rest) (⟨record.id, error⟩ :: failures) (count + total)

end

/-! ## One item -/

section
variable {entries : List CatalogEntry} {pageSize : Nat} {requests : List Match}

/-- For a data mapper in scope whose table is found, what is left is to classify the matches and to
expand the groups. -/
theorem compileMapper_of_find {mapper : Mapper} {entry : CatalogEntry} {expanded : Run (List Query)}
    (hscope : ∃ request ∈ requests, request.appliesTo mapper.id = true)
    (hfind : CatalogEntry.find entries mapper.database mapper.table = .ok entry)
    (hexpanded : (do
      let groups ← Run.ofExcept
        ((Classification.classify requests mapper entry.table).mapError .column)
      Expansion.expand (.ofEntries pageSize entries) mapper entry.table groups) = expanded) :
    (compileMapper (.ofEntries pageSize entries) requests mapper).outcome = expanded.outcome ∧
      (compileMapper (.ofEntries pageSize entries) requests mapper).pages = expanded.pages := by
  have htable : (Catalog.ofEntries pageSize entries).table mapper.database mapper.table =
      .ok entry.table := congrArg (Except.map CatalogEntry.table) hfind
  rw [compileMapper, if_pos (List.any_eq_true.2 hscope), Run.outcome_emit_bind,
    Run.pages_emit_bind (by simp), htable, Outcome.mapError_ok, Run.outcome_ok_bind,
    Run.pages_ok_bind, hexpanded]
  exact ⟨rfl, rfl⟩

/-- What is said of an item is what compiling it does. -/
theorem Fetches.eq {item : Except SourceError MapperRecord} {failure : Option CompileError}
    {count : Nat} (h : Fetches entries pageSize requests item failure count) :
    Outcome.error? (outcomeOf (.ofEntries pageSize entries) requests item) = failure ∧
      (compileItem (.ofEntries pageSize entries) requests item).pages = count := by
  cases h with
  | unread => exact ⟨rfl, rfl⟩
  | unconfigured hmapper =>
    simp only [outcomeOf, compileItem, hmapper]
    exact ⟨rfl, rfl⟩
  | outOfScope hmapper hnone =>
    simp only [outcomeOf, compileItem, hmapper]
    rw [compileMapper, if_neg (by simpa using hnone)]
    exact ⟨rfl, rfl⟩
  | @undescribed _ mapper error hmapper hscope hfind =>
    have htable : (Catalog.ofEntries pageSize entries).table mapper.database mapper.table =
        .error error := congrArg (Except.map CatalogEntry.table) hfind
    simp only [outcomeOf, compileItem, hmapper]
    rw [compileMapper, if_pos (List.any_eq_true.2 hscope), Run.outcome_emit_bind,
      Run.pages_emit_bind (by simp), htable]
    exact ⟨rfl, rfl⟩
  | unclassified hmapper hscope hfind hclassify =>
    obtain ⟨houtcome, hpages⟩ := compileMapper_of_find hscope hfind rfl
    simp only [outcomeOf, compileItem, hmapper]
    rw [houtcome, hpages, hclassify]
    exact ⟨rfl, rfl⟩
  | @classified _ mapper _ _ _ _ hmapper hscope hfind hclassify hfetches =>
    obtain ⟨houtcome, hpages⟩ := compileMapper_of_find hscope hfind rfl
    simp only [outcomeOf, compileItem, hmapper]
    rw [houtcome, hpages, hclassify, Outcome.mapError_ok, Run.outcome_ok_bind, Run.pages_ok_bind]
    exact hfetches.eq mapper

theorem exists_fetches (entries : List CatalogEntry) (pageSize : Nat) (requests : List Match)
    (item : Except SourceError MapperRecord) :
    ∃ failure count, Fetches entries pageSize requests item failure count := by
  cases item with
  | error error => exact ⟨_, _, .unread⟩
  | ok record =>
    cases hmapper : Mapper.ofRecord record with
    | error error => exact ⟨_, _, .unconfigured hmapper⟩
    | ok mapper =>
      by_cases hscope : ∃ request ∈ requests, request.appliesTo mapper.id = true
      · cases hfind : CatalogEntry.find entries mapper.database mapper.table with
        | error error => exact ⟨_, _, .undescribed hmapper hscope hfind⟩
        | ok entry =>
          cases hclassify : Classification.classify requests mapper entry.table with
          | error error => exact ⟨_, _, .unclassified hmapper hscope hfind hclassify⟩
          | ok groups =>
            obtain ⟨failure, count, h⟩ :=
              Expansion.exists_fetches entries pageSize entry.table groups
            exact ⟨failure, count, .classified hmapper hscope hfind hclassify h⟩
      · exact ⟨_, _, .outOfScope hmapper (by simpa using hscope)⟩

theorem fetches_iff {item : Except SourceError MapperRecord} {failure : Option CompileError}
    {count : Nat} :
    Fetches entries pageSize requests item failure count ↔
      Outcome.error? (outcomeOf (.ofEntries pageSize entries) requests item) = failure ∧
        (compileItem (.ofEntries pageSize entries) requests item).pages = count := by
  refine ⟨Fetches.eq, ?_⟩
  rintro ⟨rfl, rfl⟩
  obtain ⟨failure, count, h⟩ := exists_fetches entries pageSize requests item
  obtain ⟨rfl, rfl⟩ := h.eq
  exact h

/-! ## All items -/

/-- The failures and the pages of a registry are decided by its items. -/
theorem FetchesAll.unique {registry : Registry} {failures others : List Failure}
    {total sum : Nat} (h : FetchesAll entries pageSize requests registry failures total)
    (h' : FetchesAll entries pageSize requests registry others sum) :
    failures = others ∧ total = sum := by
  induction h generalizing others sum with
  | nil =>
    cases h'
    exact ⟨rfl, rfl⟩
  | compiled hitem _ ih =>
    obtain ⟨hnone, rfl⟩ := hitem.eq
    cases h' with
    | compiled hitem' hrest =>
      obtain ⟨_, rfl⟩ := hitem'.eq
      obtain ⟨rfl, rfl⟩ := ih hrest
      exact ⟨rfl, rfl⟩
    | skipped hitem' _ =>
      rw [hitem'.eq.1] at hnone
      cases hnone
  | skipped hitem _ ih =>
    obtain ⟨hsome, rfl⟩ := hitem.eq
    cases h' with
    | compiled hitem' _ =>
      rw [hitem'.eq.1] at hsome
      cases hsome
    | skipped hitem' hrest =>
      obtain ⟨hsome', rfl⟩ := hitem'.eq
      obtain ⟨rfl⟩ := Option.some_inj.1 (hsome.symm.trans hsome')
      obtain ⟨rfl, rfl⟩ := ih hrest
      exact ⟨rfl, rfl⟩

/-- Where failures account for the records of a registry, they are those of the records that are
skipped, and the pages add up over all items. -/
theorem fetchesAll_of_accounts {registry : Registry} {queries : List Query}
    {failures : List Failure}
    (h : Accounts (outcomeOf (.ofEntries pageSize entries) requests) registry queries failures) :
    FetchesAll entries pageSize requests registry failures
      (registry.map fun item =>
        (compileItem (.ofEntries pageSize entries) requests item).pages).sum := by
  induction h with
  | nil => exact .nil
  | compiled houtcome _ ih =>
    rw [List.map_cons, List.sum_cons]
    exact .compiled (fetches_iff.2 ⟨by rw [houtcome]; rfl, rfl⟩) ih
  | failed houtcome _ ih =>
    rw [List.map_cons, List.sum_cons]
    exact .skipped (fetches_iff.2 ⟨by rw [houtcome]; rfl, rfl⟩) ih

end

/-! ## Events under any bound -/

section
variable {policy : FailurePolicy} {bound : Nat} {catalog : Catalog} {requests : List Match}

/-- The events that a job under way has still to cause if it comes to a report: those left of the
tasks that have been started, and those of the items that have not. -/
def Progress.eventsLeft (catalog : Catalog) (requests : List Match) (progress : Progress) :
    List Event :=
  progress.started.flatMap (·.pending) ++
    progress.waiting.flatMap fun item => (compileItem catalog requests item).events

/-- A step of a job moves events from those that are left to those that have been caused. -/
theorem perm_events_of_step {progress next : Progress}
    (h : Step policy bound catalog requests progress next) :
    (next.events ++ next.eventsLeft catalog requests).Perm
      (progress.events ++ progress.eventsLeft catalog requests) := by
  cases h with
  | start _ => simp [Progress.eventsLeft]
  | advance =>
    simp only [Progress.eventsLeft, List.flatMap_append, List.flatMap_cons, List.append_assoc,
      List.singleton_append]
    refine List.Perm.append_left _ ?_
    exact List.perm_middle.symm
  | settle _ => simp [Progress.eventsLeft]

/-- A job under way that comes to a report causes the events that are left. -/
theorem perm_events_of_returns {progress : Progress} {run : Run Report}
    (h : Returns policy bound catalog requests progress run) {report : Report}
    (hreport : run.outcome = .ok report) :
    run.events.Perm (progress.events ++ progress.eventsLeft catalog requests) := by
  induction h with
  | done => simp [Progress.eventsLeft]
  | failed _ => cases hreport
  | step hstep _ ih => exact (ih hreport).trans (perm_events_of_step hstep)

/-- A job that comes to a report has fetched the pages of its items. -/
theorem pages_of_yields {sources : Sources} {job : String} {run : Run Report}
    (hyields : Yields policy bound sources job run) (hqueue : sources.queue job = .ok requests)
    {report : Report} (hreport : run.outcome = .ok report) :
    run.pages =
      (sources.mappers.map fun item => (compileItem sources.catalog requests item).pages).sum := by
  rw [Yields, hqueue] at hyields
  have hperm : run.events.Perm
      (sources.mappers.flatMap fun item => (compileItem sources.catalog requests item).events) :=
    perm_events_of_returns hyields hreport
  rw [Run.pages, hperm.count_eq, List.count_flatMap]
  rfl

end

/-! ## Pages on demand -/

/-- Over a catalog held in memory, partitions come in pages, of which one is fetched only when its
first row is asked for. So the size of the pages has no part in what groups expand to, and an
expansion has fetched the pages up to the row that it fails at, or all of them. A job that comes to
a report, with however many data mappers under way at the same time, has fetched the pages that its
items fetch, those of the records that it skips included. -/
theorem pages_on_demand (store : TableStore) (pageSize : Nat) :
    (∀ database name entry, CatalogEntry.find store.entries database name = .ok entry →
      Feed.IsPaged pageSize entry.partitions
        ((store.catalog pageSize).partitions database name)) ∧
    (∀ mapper table groups,
      (∀ other, (Expansion.expand (store.catalog pageSize) mapper table groups).outcome =
        (Expansion.expand (store.catalog other) mapper table groups).outcome) ∧
      ∀ failure count, Expansion.Fetches store.entries pageSize table groups failure count ↔
        Outcome.error?
            (Expansion.expand (store.catalog pageSize) mapper table groups).outcome = failure ∧
          (Expansion.expand (store.catalog pageSize) mapper table groups).pages = count) ∧
    ∀ (policy : FailurePolicy) (bound : Nat) (queue : String → Except SourceError (List Match))
      (registry : Registry) (job : String) (requests : List Match) (run : Run Report)
      (report : Report),
      Yields policy bound ⟨store.catalog pageSize, queue, registry⟩ job run →
      queue job = .ok requests → run.outcome = .ok report →
      ∀ failures total,
        FetchesAll store.entries pageSize requests registry failures total ↔
          failures = report.failures ∧ total = run.pages := by
  refine ⟨?_, ?_, ?_⟩
  · intro database name entry hfind
    rw [TableStore.catalog, Catalog.ofEntries]
    simp only [hfind]
    exact Feed.isPaged_paged pageSize entry.partitions
  · intro mapper table groups
    refine ⟨fun other => Expansion.outcome_expand_eq ?_ mapper table groups,
      fun failure count => ?_⟩
    · intro database name
      exact ⟨_, Catalog.answersWith_ofEntries pageSize store.entries database name,
        Catalog.answersWith_ofEntries other store.entries database name⟩
    · exact Expansion.fetches_iff
  · intro policy bound queue registry job requests run report hyields hqueue hreport failures total
    have haccounts : Accounts (outcomeOf (store.catalog pageSize) requests) registry
        report.queries report.failures := by
      rw [outcome_eq_of_yields hyields] at hreport
      exact ((generate_eq_ok_iff_accounts hqueue).1 hreport).2
    have hall : FetchesAll store.entries pageSize requests registry report.failures run.pages := by
      rw [pages_of_yields hyields hqueue hreport]
      exact fetchesAll_of_accounts haccounts
    constructor
    · intro h
      exact h.unique hall
    · rintro ⟨rfl, rfl⟩
      exact hall

/-! Three tables of a depot in pages of two rows: one whose rows fill its pages, one of which the
last row of the first page has no year, and one without partition keys. -/

namespace Letters

/-- A table of letters under a name, with partitions by year. -/
def yearly (name : String) (years : List String) : CatalogEntry where
  table := ⟨"depot", name, [⟨"sender", "string"⟩], [⟨"year", "int"⟩]⟩
  partitions := years.map fun year => ⟨[year]⟩

/-- The letters that were sent. -/
def sent : CatalogEntry :=
  yearly "sent" ["2021", "2022", "2023", "2024"]

/-- The letters that were lost. -/
def lost : CatalogEntry :=
  yearly "lost" ["2021", "later", "2023"]

/-- The letters that were not finished. -/
def drafts : CatalogEntry where
  table := ⟨"depot", "drafts", [⟨"sender", "string"⟩], []⟩
  partitions := [⟨["2021"]⟩]

/-- The store of the tables. -/
def store : TableStore :=
  ⟨[sent, lost, drafts]⟩

/-- The record of a data mapper for a table. -/
def record (table : String) : MapperRecord :=
  ⟨table, "athena", ["sender"], "json", "glue", "depot", table, none, none⟩

/-- The data mapper for the letters that were lost. -/
def mapper : Mapper :=
  ⟨"lost", .athena, .glue, "depot", "lost", ["sender"], .json, none, none⟩

/-- The registry. -/
def registry : Registry :=
  .ofRecords [record "sent", record "lost", record "drafts"]

/-- The queue. -/
def requests : List Match :=
  [.simple (.text "7") []]

/-- The groups that the queue gives for every one of the tables. -/
def groups : List Group :=
  [.simple "sender" [.text "7"]]

/-- The sources of a job. -/
def sources : Sources :=
  ⟨store.catalog 2, fun _ => .ok requests, registry⟩

/-- What the job reports on the letters that were lost. -/
def error : CompileError :=
  .column (.uncastable "year" "later" .int)

/-- The failures that the job reports. -/
def failures : List Failure :=
  [⟨"lost", error⟩]

/-- The query for the letters of a table. -/
def query (table : String) (keys : List KeyValue) : Query :=
  ⟨table, .athena, .json, "depot", table, groups, keys, none, true⟩

/-- The report of the job. -/
def report : Report :=
  ⟨([2021, 2022, 2023, 2024].map fun year => query "sent" [⟨"year", .integer year⟩]) ++
    [query "drafts" []], failures⟩

end Letters

theorem pages_on_demand_letters :
    Feed.IsPaged 2 Letters.sent.partitions ((Letters.store.catalog 2).partitions "depot" "sent") ∧
      (Expansion.expand (Letters.store.catalog 2) Letters.mapper Letters.lost.table
          Letters.groups).outcome =
        (Expansion.expand (Letters.store.catalog 0) Letters.mapper Letters.lost.table
          Letters.groups).outcome ∧
      Expansion.Fetches Letters.store.entries 2 Letters.lost.table Letters.groups
        (some Letters.error) 1 ∧
      (∃ run, Yields .skip 3 Letters.sources "job" run ∧ run.outcome = .ok Letters.report) ∧
      FetchesAll Letters.store.entries 2 Letters.requests Letters.registry Letters.failures 3 := by
  obtain ⟨hpaged, hexpand, hjob⟩ := pages_on_demand Letters.store 2
  obtain ⟨hsame, hfetches⟩ := hexpand Letters.mapper Letters.lost.table Letters.groups
  have hyields : Yields .skip 3 Letters.sources "job" (generate .skip Letters.sources "job") :=
    yields_generate
  have hreport : (generate .skip Letters.sources "job").outcome = .ok Letters.report := by
    decide +kernel
  refine ⟨hpaged _ _ _ rfl, hsame 0, ?_, ⟨_, hyields, hreport⟩, ?_⟩
  · exact (hfetches _ _).2 ⟨by decide +kernel, by decide +kernel⟩
  · exact (hjob _ _ _ _ _ _ _ _ hyields rfl hreport _ _).2 ⟨rfl, by decide +kernel⟩

/-! A table with groups of which the first row has no year, on the first of its two pages. -/

namespace Parcels

/-- The table. -/
def entry : CatalogEntry where
  table := ⟨"depot", "parcels", [⟨"sender", "string"⟩], [⟨"year", "int"⟩]⟩
  partitions := [⟨["later"]⟩, ⟨["2024"]⟩]

/-- The record of a data mapper for the table. -/
def record : MapperRecord :=
  ⟨"parcels", "athena", ["sender"], "json", "glue", "depot", "parcels", none, none⟩

/-- The data mapper. -/
def mapper : Mapper :=
  ⟨"parcels", .athena, .glue, "depot", "parcels", ["sender"], .json, none, none⟩

/-- The queue. -/
def requests : List Match :=
  [.simple (.text "7") []]

/-- The sources of a job. -/
def sources : Sources :=
  ⟨TableStore.catalog ⟨[entry]⟩ 1, fun _ => .ok requests, .ofRecords [record]⟩

end Parcels

/-- A job that skips a data mapper because of a row comes to a report without having asked for the
rows after it, so it has fetched fewer pages than its dataset has. -/
theorem pages_of_skipped_parcels :
    Mapper.ofRecord Parcels.record = .ok Parcels.mapper ∧
      Classification.classify Parcels.requests Parcels.mapper Parcels.entry.table =
        .ok [.simple "sender" [.text "7"]] ∧
      Parcels.entry.table.isPartitioned = true ∧
      Parcels.entry.partitions.length ⌈/⌉ max 1 1 = 2 ∧
      Yields .skip 1 Parcels.sources "job" (generate .skip Parcels.sources "job") ∧
      (generate .skip Parcels.sources "job").outcome =
        .ok ⟨[], [⟨"parcels", .column (.uncastable "year" "later" .int)⟩]⟩ ∧
      (generate .skip Parcels.sources "job").pages = 1 :=
  ⟨by decide +kernel, by decide +kernel, rfl, rfl, yields_generate, by decide +kernel,
    by decide +kernel⟩

end Expunge.Job
