import Expunge.Error

/-!
# Runs and their events

Compiling asks a catalog for tables and for partitions, which come in pages. A run is the outcome of
a computation together with the events it caused, in order; the events before an error are kept.
-/

namespace Expunge

/-- What a computation makes a catalog do. -/
inductive Event
  | tableLookup (database table : String)
  | partitionListing (database table : String)
  | pageFetch
deriving DecidableEq, Repr

/-- The outcome of a computation and the events that it caused. -/
structure Run (α : Type) where
  outcome : Except CompileError α
  events : List Event

namespace Run

variable {α β : Type}

/-- A run that ends with an outcome at once. -/
def ofExcept (outcome : Except CompileError α) : Run α :=
  ⟨outcome, []⟩

/-- A run that fails at once. -/
def fail (error : CompileError) : Run α :=
  ofExcept (.error error)

/-- A run that only causes an event. -/
def emit (event : Event) : Run Unit :=
  ⟨.ok (), [event]⟩

/-- One run after another; an error ends both. -/
protected def bind (first : Run α) (next : α → Run β) : Run β :=
  match first.outcome with
  | .ok value => ⟨(next value).outcome, first.events ++ (next value).events⟩
  | .error error => ⟨.error error, first.events⟩

instance : Monad Run where
  pure value := ofExcept (.ok value)
  bind := Run.bind

/-- A run that never fails: its value is the outcome of the given run. -/
def attempt (run : Run α) : Run (Except CompileError α) :=
  ⟨.ok run.outcome, run.events⟩

/-- The number of pages that a run fetched. -/
def pages (run : Run α) : Nat :=
  run.events.count .pageFetch

/-- The requests that a run made to the catalog, without the pages fetched to answer them. -/
def calls (run : Run α) : List Event :=
  run.events.filter (· ≠ .pageFetch)

@[simp] theorem outcome_pure (value : α) : (pure value : Run α).outcome = .ok value := rfl

@[simp] theorem events_pure (value : α) : (pure value : Run α).events = [] := rfl

@[simp] theorem outcome_fail (error : CompileError) : (fail error : Run α).outcome = .error error :=
  rfl

@[simp] theorem events_fail (error : CompileError) : (fail error : Run α).events = [] := rfl

@[simp] theorem outcome_emit (event : Event) : (emit event).outcome = .ok () := rfl

@[simp] theorem events_emit (event : Event) : (emit event).events = [event] := rfl

@[simp] theorem outcome_ofExcept (outcome : Except CompileError α) :
    (ofExcept outcome).outcome = outcome := rfl

@[simp] theorem events_ofExcept (outcome : Except CompileError α) :
    (ofExcept outcome).events = [] := rfl

@[simp] theorem outcome_attempt (run : Run α) : run.attempt.outcome = .ok run.outcome := rfl

@[simp] theorem events_attempt (run : Run α) : run.attempt.events = run.events := rfl

theorem outcome_bind (first : Run α) (next : α → Run β) :
    (first >>= next).outcome = first.outcome >>= fun value => (next value).outcome := by
  show (first.bind next).outcome = _
  unfold Run.bind
  cases first.outcome <;> rfl

theorem events_bind_of_ok {first : Run α} {next : α → Run β} {value : α}
    (h : first.outcome = .ok value) :
    (first >>= next).events = first.events ++ (next value).events := by
  show (first.bind next).events = _
  simp [Run.bind, h]

theorem events_bind_of_error {first : Run α} {next : α → Run β} {error : CompileError}
    (h : first.outcome = .error error) : (first >>= next).events = first.events := by
  show (first.bind next).events = _
  simp [Run.bind, h]

/-- A first step that is only an outcome causes no event. -/
@[simp] theorem events_ok_bind (value : α) (next : α → Run β) :
    (ofExcept (.ok value) >>= next).events = (next value).events :=
  events_bind_of_ok (outcome_ofExcept _)

@[simp] theorem events_error_bind (error : CompileError) (next : α → Run β) :
    (ofExcept (.error error) >>= next).events = [] :=
  events_bind_of_error (outcome_ofExcept _)

@[simp] theorem calls_pure (value : α) : (pure value : Run α).calls = [] :=
  rfl

theorem calls_bind_of_ok {first : Run α} {next : α → Run β} {value : α}
    (h : first.outcome = .ok value) :
    (first >>= next).calls = first.calls ++ (next value).calls := by
  rw [calls, events_bind_of_ok h, List.filter_append]
  rfl

theorem calls_bind_of_error {first : Run α} {next : α → Run β} {error : CompileError}
    (h : first.outcome = .error error) : (first >>= next).calls = first.calls := by
  rw [calls, events_bind_of_error h]
  rfl

@[simp] theorem calls_ok_bind (value : α) (next : α → Run β) :
    (ofExcept (.ok value) >>= next).calls = (next value).calls := by
  rw [calls, calls, events_ok_bind]

@[simp] theorem calls_error_bind (error : CompileError) (next : α → Run β) :
    (ofExcept (.error error) >>= next).calls = [] := by
  rw [calls, events_error_bind, List.filter_nil]

@[simp] theorem pages_pure (value : α) : (pure value : Run α).pages = 0 :=
  rfl

theorem pages_bind_of_ok {first : Run α} {next : α → Run β} {value : α}
    (h : first.outcome = .ok value) :
    (first >>= next).pages = first.pages + (next value).pages := by
  rw [pages, events_bind_of_ok h, List.count_append]
  rfl

theorem pages_bind_of_error {first : Run α} {next : α → Run β} {error : CompileError}
    (h : first.outcome = .error error) : (first >>= next).pages = first.pages := by
  rw [pages, events_bind_of_error h]
  rfl

/-- A first step that only causes an event has no part in the outcome. -/
theorem outcome_emit_bind (event : Event) (next : Unit → Run α) :
    (emit event >>= next).outcome = (next ()).outcome :=
  rfl

theorem outcome_ok_bind (value : α) (next : α → Run β) :
    (ofExcept (.ok value) >>= next).outcome = (next value).outcome :=
  rfl

theorem pages_emit_bind {event : Event} (h : event ≠ .pageFetch) (next : Unit → Run α) :
    (emit event >>= next).pages = (next ()).pages := by
  rw [pages_bind_of_ok (outcome_emit event), pages, events_emit, List.count_singleton]
  simp [h]

@[simp] theorem pages_pageFetch_bind (next : Unit → Run α) :
    (emit .pageFetch >>= next).pages = 1 + (next ()).pages := by
  rw [pages_bind_of_ok (outcome_emit .pageFetch), pages, events_emit, List.count_singleton_self]

@[simp] theorem pages_ok_bind (value : α) (next : α → Run β) :
    (ofExcept (.ok value) >>= next).pages = (next value).pages := by
  rw [pages, pages, events_ok_bind]

@[simp] theorem pages_error_bind (error : CompileError) (next : α → Run β) :
    (ofExcept (.error error) >>= next).pages = 0 := by
  rw [pages, events_error_bind, List.count_nil]

end Run

end Expunge
