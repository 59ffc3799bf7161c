import Expunge.Job.Concurrent
import Expunge.Proofs.Job.Report
import Mathlib.Logic.Relation

/-!
# Bounded concurrency leaves the report alone

However many data mappers a job has under way, and in whatever order they come to their ends, the
job returns what it returns with one of them at a time. The invariant (`sequel`) ties a job under
way to the one-at-a-time run: what is left for that run to do is the items of the started tasks,
then those not yet started, on top of the report so far. Main result: `schedule_irrelevant`, which
also says that no schedule gets stuck.
-/

namespace Expunge.Job

variable {policy : FailurePolicy} {bound : Nat} {catalog : Catalog} {requests : List Match}

/-! ## What is left of a job -/

/-- The items of a job under way that are not yet in its report, in the order of the registry. -/
def Progress.remaining (progress : Progress) : Registry :=
  progress.started.map (·.item) ++ progress.waiting

/-- What the one-at-a-time run of the remaining items makes of the report of a job under way. -/
def sequel (policy : FailurePolicy) (catalog : Catalog) (requests : List Match)
    (progress : Progress) : Except CompileError Report :=
  (compileItems policy catalog requests progress.report progress.remaining).outcome

/-- The first item is settled before the others are compiled. -/
theorem outcome_compileItems_cons {report : Report} {item : Except SourceError MapperRecord}
    {rest : Registry} :
    (compileItems policy catalog requests report (item :: rest)).outcome = (do
      let next ← report.settle policy item (compileItem catalog requests item).outcome
      (compileItems policy catalog requests next rest).outcome) := by
  simp only [compileItems, Run.outcome_bind, Run.outcome_attempt, Run.outcome_ofExcept]
  rfl

theorem events_compileItems_cons {report : Report} {item : Except SourceError MapperRecord}
    {rest : Registry} :
    (compileItems policy catalog requests report (item :: rest)).events =
      (compileItem catalog requests item).events ++
        (Run.ofExcept (report.settle policy item (compileItem catalog requests item).outcome) >>=
          fun next => compileItems policy catalog requests next rest).events :=
  Run.events_bind_of_ok (Run.outcome_attempt _)

/-- One step of a job, whether it starts an item, lets a task cause an event or takes the oldest
task into the report, leaves the rest of the one-at-a-time run the same. -/
theorem sequel_eq_of_step {progress next : Progress}
    (h : Step policy bound catalog requests progress next) :
    sequel policy catalog requests next = sequel policy catalog requests progress := by
  cases h with
  | start _ => simp [sequel, Progress.remaining]
  | advance => simp [sequel, Progress.remaining]
  | @settle item waiting started report next events hsettle =>
    have hremaining : (Progress.mk waiting (⟨item, []⟩ :: started) report events).remaining =
        item :: (Progress.mk waiting started next events).remaining := rfl
    rw [sequel, sequel, hremaining, outcome_compileItems_cons, hsettle]
    rfl

/-- What a job under way comes to is the rest of the one-at-a-time run. -/
theorem outcome_eq_sequel_of_returns {progress : Progress} {run : Run Report}
    (h : Returns policy bound catalog requests progress run) :
    run.outcome = sequel policy catalog requests progress := by
  induction h with
  | done => rfl
  | @failed item waiting started report events error hsettle =>
    have hremaining : (Progress.mk waiting (⟨item, []⟩ :: started) report events).remaining =
        item :: (started.map (·.item) ++ waiting) := rfl
    rw [sequel, hremaining, outcome_compileItems_cons, hsettle]
    rfl
  | step hstep _ ih => rw [ih, sequel_eq_of_step hstep]

/-! ## Schedules -/

/-- The oldest task may cause all of its events before anything else happens. -/
theorem returns_of_oldest_finished {waiting : Registry} {item : Except SourceError MapperRecord}
    {pending : List Event} {started : List Task} {report : Report} {events : List Event}
    {run : Run Report}
    (h : Returns policy bound catalog requests
      ⟨waiting, ⟨item, []⟩ :: started, report, events ++ pending⟩ run) :
    Returns policy bound catalog requests
      ⟨waiting, ⟨item, pending⟩ :: started, report, events⟩ run := by
  induction pending generalizing events with
  | nil => simpa using h
  | cons event pending ih =>
    have hadvance : Step policy bound catalog requests
        ⟨waiting, [] ++ ⟨item, event :: pending⟩ :: started, report, events⟩
        ⟨waiting, [] ++ ⟨item, pending⟩ :: started, report, events ++ [event]⟩ := .advance
    refine .step hadvance (ih ?_)
    simpa using h

/-- With one task at a time, in the order of the registry, a job runs as the one-at-a-time run
does, with the same events. -/
theorem returns_compileItems (items : Registry) (report : Report) (events : List Event) :
    Returns policy bound catalog requests ⟨items, [], report, events⟩
      ⟨(compileItems policy catalog requests report items).outcome,
        events ++ (compileItems policy catalog requests report items).events⟩ := by
  induction items generalizing report events with
  | nil => simpa [compileItems] using Returns.done
  | cons item rest ih =>
    refine .step (.start (Nat.lt_of_lt_of_le Nat.zero_lt_one (Nat.le_max_right _ _))) ?_
    refine returns_of_oldest_finished ?_
    rw [outcome_compileItems_cons, events_compileItems_cons, ← List.append_assoc]
    cases hsettle : report.settle policy item (compileItem catalog requests item).outcome with
    | error error =>
      rw [Run.events_error_bind, List.append_nil]
      exact .failed hsettle
    | ok next =>
      rw [Run.events_ok_bind]
      exact .step (.settle hsettle) (ih next _)

/-- A job under way can always go on until it returns. -/
theorem exists_returns (progress : Progress) :
    ∃ run, Returns policy bound catalog requests progress run := by
  obtain ⟨waiting, started, report, events⟩ := progress
  induction started generalizing report events with
  | nil => exact ⟨_, returns_compileItems waiting report events⟩
  | cons task started ih =>
    obtain ⟨item, pending⟩ := task
    cases hsettle : report.settle policy item (compileItem catalog requests item).outcome with
    | error error => exact ⟨_, returns_of_oldest_finished (.failed hsettle)⟩
    | ok next =>
      obtain ⟨run, hrun⟩ := ih next (events ++ pending)
      exact ⟨run, returns_of_oldest_finished (.step (.settle hsettle) hrun)⟩

/-- What a job under way can come to, it can come to from every state that led to where it is. -/
theorem returns_of_reaches {progress reached : Progress} {run : Run Report}
    (hreach : Relation.ReflTransGen (Step policy bound catalog requests) progress reached)
    (h : Returns policy bound catalog requests reached run) :
    Returns policy bound catalog requests progress run := by
  induction hreach using Relation.ReflTransGen.head_induction_on with
  | refl => exact h
  | head hstep _ ih => exact .step hstep ih

/-! ## Whole jobs -/

section
variable {sources : Sources} {job : String}

/-- What a job does with one data mapper at a time is among what it may do under any bound. -/
theorem yields_generate : Yields policy bound sources job (generate policy sources job) := by
  rw [Yields, generate]
  cases sources.queue job with
  | error error => rfl
  | ok requests => exact returns_compileItems sources.mappers .empty []

/-- Whatever a job comes to under a bound, it comes to with one data mapper at a time. -/
theorem outcome_eq_of_yields {run : Run Report} (h : Yields policy bound sources job run) :
    run.outcome = (generate policy sources job).outcome := by
  rw [Yields] at h
  rw [generate, Run.outcome_bind]
  cases hqueue : sources.queue job with
  | error error =>
    rw [hqueue] at h
    rw [h]
    rfl
  | ok requests =>
    rw [hqueue] at h
    exact outcome_eq_sequel_of_returns h

end

/-- The schedule of a job cannot be seen in its report or error. The one-at-a-time run is one of its
schedules under every bound; every schedule that returns gives the outcome of that run; and every
schedule, however far it has got, can be carried on until it returns. -/
theorem schedule_irrelevant (policy : FailurePolicy) (bound : Nat) (sources : Sources)
    (job : String) :
    Yields policy bound sources job (generate policy sources job) ∧
      (∀ run, Yields policy bound sources job run →
        run.outcome = (generate policy sources job).outcome) ∧
      ∀ requests, sources.queue job = .ok requests → ∀ progress,
        Relation.ReflTransGen (Step policy bound sources.catalog requests)
          (.start sources.mappers) progress →
        ∃ run, Returns policy bound sources.catalog requests progress run ∧
          Yields policy bound sources job run := by
  refine ⟨yields_generate, fun run h => outcome_eq_of_yields h, ?_⟩
  intro requests hqueue progress hreach
  obtain ⟨run, hrun⟩ := exists_returns progress
  refine ⟨run, hrun, ?_⟩
  rw [Yields, hqueue]
  exact returns_of_reaches hreach hrun

end Expunge.Job
