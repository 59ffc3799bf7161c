import Expunge.Delivery

/-!
# Sessions

A session is a transport in use: its state, and the streams that were opened over its topics, by
name. It takes one action after another and replies to each. Main definitions: `Session.perform` and
`Session.run`.
-/

namespace Expunge

/-- What is asked of a transport in use. -/
inductive Action
  /-- To send a message to a topic. -/
  | send (topic : String) (message : Message)
  /-- To send the queries of a job to a topic in batches of a size. -/
  | deliver (topic : String) (size : Nat) (job : String) (queries : List Query)
  /-- To open a stream over a topic under a name. -/
  | openStream (name topic : String)
  /-- To poll the stream of a name. -/
  | poll (name : String)
  /-- To take all messages off a topic. -/
  | drain (topic : String)
deriving DecidableEq, Repr

/-- What a session replies to an action. -/
inductive Reply
  | sent
  | refused (reason : String)
  | delivered (batches : Nat)
  | undelivered (error : PublishError)
  | opened
  | polled (poll : Poll)
  | drained (messages : List Message)
deriving DecidableEq, Repr

/-- A transport in use. -/
structure Session (σ : Type) where
  state : σ
  streams : List (String × Stream)

namespace Session

variable {σ : Type}

/-- A session without streams. -/
def start (state : σ) : Session σ :=
  ⟨state, []⟩

/-- Puts a stream under a name, in place of another one of that name. -/
def setStream (session : Session σ) (name : String) (stream : Stream) : Session σ :=
  { session with streams := (name, stream) :: session.streams.filter (·.1 ≠ name) }

/-- What a session replies to an action, and the session after it. A name under which no stream was
opened is answered like a closed stream. -/
def perform (transport : Transport σ) (action : Action) (session : Session σ) :
    Reply × Session σ :=
  match action with
  | .send topic message =>
    let (outcome, state) := transport.send topic message session.state
    let reply := match outcome with
      | .ok () => .sent
      | .error reason => .refused reason
    (reply, { session with state := state })
  | .deliver topic size job queries =>
    let (outcome, state) := Delivery.deliver transport topic size job queries session.state
    let reply := match outcome with
      | .ok batches => .delivered batches
      | .error error => .undelivered error
    (reply, { session with state := state })
  | .openStream name topic => (.opened, session.setStream name (.onTopic topic))
  | .poll name =>
    match session.streams.lookup name with
    | none => (.polled .closed, session)
    | some stream =>
      let (poll, stream, state) := stream.poll transport session.state
      (.polled poll, { session with state := state }.setStream name stream)
  | .drain topic =>
    let (messages, state) := transport.drain topic session.state
    (.drained messages, { session with state := state })

/-- The replies to actions, one after the other, and the session after the last. -/
def run (transport : Transport σ) : List Action → Session σ → List Reply × Session σ
  | [], session => ([], session)
  | action :: rest, session =>
    let (reply, session) := session.perform transport action
    let (replies, session) := run transport rest session
    (reply :: replies, session)

end Session

end Expunge
