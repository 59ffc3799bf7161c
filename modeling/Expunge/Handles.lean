import Expunge.Session

/-!
# Handles

A transport in use is reached through handles. A copy of a handle reaches the same session, so what
is sent through one of them waits for the streams that are opened through any other; sessions that
were started apart share nothing. Main definitions: `Handles.perform` and `Handles.run`.
-/

namespace Expunge

/-- What is done with handles, which are numbered in the order in which they were made. -/
inductive HandleAction
  /-- To start another session and make a handle that reaches it. -/
  | start
  /-- To make a copy of a handle. -/
  | copy (handle : Nat)
  /-- To ask something of the session that a handle reaches. -/
  | ask (handle : Nat) (action : Action)
deriving DecidableEq, Repr

/-- What a session was asked through one of its handles, and what it replied. -/
structure Exchange where
  session : Nat
  action : Action
  reply : Reply
deriving DecidableEq, Repr

/-- The sessions of a transport and the handles that reach them. -/
structure Handles (σ : Type) where
  /-- The sessions in the order in which they are started. -/
  sessions : Nat → Session σ
  /-- The number of sessions that have been started. -/
  started : Nat
  /-- The number of the session that each handle reaches. -/
  targets : List Nat

namespace Handles

variable {σ : Type}

/-- No handles, and a state in which every session starts. -/
def empty (state : σ) : Handles σ :=
  ⟨fun _ => .start state, 0, []⟩

/-- Replaces a session. -/
def setSession (handles : Handles σ) (number : Nat) (session : Session σ) : Handles σ :=
  { handles with
    sessions := fun other => if other = number then session else handles.sessions other }

/-- What passes between a handle and its session when something is done with handles, and the
handles after it. A handle that was not made reaches nothing. -/
def perform (transport : Transport σ) (action : HandleAction) (handles : Handles σ) :
    Option Exchange × Handles σ :=
  match action with
  | .start =>
    (none, { handles with
      started := handles.started + 1, targets := handles.targets ++ [handles.started] })
  | .copy handle =>
    (none, { handles with targets := handles.targets ++ handles.targets[handle]?.toList })
  | .ask handle action =>
    match handles.targets[handle]? with
    | none => (none, handles)
    | some number =>
      let (reply, session) := (handles.sessions number).perform transport action
      (some ⟨number, action, reply⟩, handles.setSession number session)

/-- All that passes when one thing after the other is done with handles, and the handles after the
last. -/
def run (transport : Transport σ) :
    List HandleAction → Handles σ → List Exchange × Handles σ
  | [], handles => ([], handles)
  | action :: rest, handles =>
    let (exchange, handles) := handles.perform transport action
    let (exchanges, handles) := run transport rest handles
    (exchange.toList ++ exchanges, handles)

end Handles

end Expunge
