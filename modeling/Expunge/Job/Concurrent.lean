import Expunge.Job

/-!
# Jobs with several data mappers under way

A job may have up to a bound of data mappers under way at the same time. They are started in the
order of the registry, cause their events in any order among one another, and are taken into the
report in the order in which they were started. Main definition: `Job.Yields`, what a job can come
to under a bound; `Job.generate` has one data mapper under way at a time.
-/

namespace Expunge.Job

/-- An item of a registry that has been started, with the events that compiling it has still to
cause. It is finished when there are none. -/
structure Task where
  item : Except SourceError MapperRecord
  pending : List Event

/-- A job under way: the items not yet started, the tasks not yet taken into the report with the
oldest first, the report, and the events so far. -/
structure Progress where
  waiting : Registry
  started : List Task
  report : Report
  events : List Event

/-- Where a job starts. -/
def Progress.start (items : Registry) : Progress :=
  ⟨items, [], .empty, []⟩

section
variable (policy : FailurePolicy) (bound : Nat) (catalog : Catalog) (requests : List Match)

/-- A step of a job that may have `bound` tasks at a time; the bound 0 counts as 1. -/
inductive Step : Progress → Progress → Prop
  | start {item : Except SourceError MapperRecord} {waiting : Registry} {started : List Task}
      {report : Report} {events : List Event} :
      started.length < max bound 1 →
      Step ⟨item :: waiting, started, report, events⟩
        ⟨waiting, started ++ [⟨item, (compileItem catalog requests item).events⟩], report, events⟩
  | advance {item : Except SourceError MapperRecord} {waiting : Registry}
      {before after : List Task} {report : Report} {event : Event} {pending events : List Event} :
      Step ⟨waiting, before ++ ⟨item, event :: pending⟩ :: after, report, events⟩
        ⟨waiting, before ++ ⟨item, pending⟩ :: after, report, events ++ [event]⟩
  | settle {item : Except SourceError MapperRecord} {waiting : Registry} {started : List Task}
      {report next : Report} {events : List Event} :
      report.settle policy item (compileItem catalog requests item).outcome = .ok next →
      Step ⟨waiting, ⟨item, []⟩ :: started, report, events⟩ ⟨waiting, started, next, events⟩

/-- What a job under way can come to: its report once no item is left, or the error of its oldest
task. -/
inductive Returns : Progress → Run Report → Prop
  | done {report : Report} {events : List Event} :
      Returns ⟨[], [], report, events⟩ ⟨.ok report, events⟩
  | failed {item : Except SourceError MapperRecord} {waiting : Registry} {started : List Task}
      {report : Report} {events : List Event} {error : CompileError} :
      report.settle policy item (compileItem catalog requests item).outcome = .error error →
      Returns ⟨waiting, ⟨item, []⟩ :: started, report, events⟩ ⟨.error error, events⟩
  | step {progress next : Progress} {run : Run Report} :
      Step policy bound catalog requests progress next → Returns next run → Returns progress run

end

/-- What a job can come to when up to `bound` data mappers are under way at the same time. -/
def Yields (policy : FailurePolicy) (bound : Nat) (sources : Sources) (job : String)
    (run : Run Report) : Prop :=
  match sources.queue job with
  | .ok requests => Returns policy bound sources.catalog requests (.start sources.mappers) run
  | .error error => run = Run.fail (.source error)

end Expunge.Job
