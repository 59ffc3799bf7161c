import Expunge.Expansion

/-!
# Deletion jobs

A job compiles the matches in its queue into the queries of every registered data mapper. Errors of
a source end the job. Other errors concern one data mapper, and a policy says whether they end the
job too or are reported beside the queries of the other data mappers.
-/

namespace Expunge

/-- What becomes of a job when one data mapper cannot be compiled. -/
inductive FailurePolicy
  /-- The job ends with the error. -/
  | abort
  /-- The error is reported and the job goes on. -/
  | skip
deriving DecidableEq, Repr

/-- A data mapper that was skipped, and why. -/
structure Failure where
  mapper : String
  error : CompileError
deriving DecidableEq, Repr

/-- Whether an error ends a job. Errors of a source do in any case. -/
def CompileError.endsJob (policy : FailurePolicy) : CompileError → Bool
  | .source _ => true
  | _ => policy = .abort

/-- What a job compiles to: the queries and the failures, both in the order of the data mappers. -/
structure Report where
  queries : List Query
  failures : List Failure
deriving DecidableEq, Repr

namespace Report

/-- The report on no data mapper. -/
def empty : Report :=
  ⟨[], []⟩

/-- Takes in what compiling an item of a registry came to, or ends the job. -/
def settle (policy : FailurePolicy) (report : Report) (item : Except SourceError MapperRecord)
    (outcome : Except CompileError (List Query)) : Except CompileError Report :=
  match outcome, item with
  | .ok queries, _ => .ok { report with queries := report.queries ++ queries }
  | .error error, .error _ => .error error
  | .error error, .ok record =>
    if error.endsJob policy then .error error
    else .ok { report with failures := report.failures ++ [⟨record.id, error⟩] }

end Report

namespace Job

/-- The queries of one data mapper. The table is looked up only if some match applies. -/
def compileMapper (catalog : Catalog) (requests : List Match) (mapper : Mapper) :
    Run (List Query) :=
  if requests.any (·.appliesTo mapper.id) then do
    Run.emit (.tableLookup mapper.database mapper.table)
    let table ← Run.ofExcept ((catalog.table mapper.database mapper.table).mapError .source)
    let groups ← Run.ofExcept ((Classification.classify requests mapper table).mapError .column)
    Expansion.expand catalog mapper table groups
  else pure []

/-- The queries of an item of a registry, which may be an error or a record of no data mapper. -/
def compileItem (catalog : Catalog) (requests : List Match) :
    Except SourceError MapperRecord → Run (List Query)
  | .error error => Run.fail (.source error)
  | .ok record =>
    match Mapper.ofRecord record with
    | .ok mapper => compileMapper catalog requests mapper
    | .error error => Run.fail (.configuration error)

/-- The report on the items of a registry, in order, added to a report on those before them. -/
def compileItems (policy : FailurePolicy) (catalog : Catalog) (requests : List Match)
    (report : Report) : Registry → Run Report
  | [] => pure report
  | item :: rest => do
    let outcome ← (compileItem catalog requests item).attempt
    let report ← Run.ofExcept (report.settle policy item outcome)
    compileItems policy catalog requests report rest

/-- The report on a job: its queue is read first, then one data mapper is compiled after the
other. -/
def generate (policy : FailurePolicy) (sources : Sources) (job : String) : Run Report := do
  let requests ← Run.ofExcept ((sources.queue job).mapError .source)
  compileItems policy sources.catalog requests .empty sources.mappers

end Job

end Expunge
