import Expunge.Batch

/-!
# Transports

A transport takes messages for topics and hands out those that wait on a topic. It is given by what
a send and a poll do to its state. A stream over a topic ends, for good, at the first poll that
finds nothing waiting.
-/

namespace Expunge

/-- How messages travel, over a state of type `σ`. -/
structure Transport (σ : Type) where
  /-- Sends a message to a topic, or says why it could not be sent. -/
  send : String → Message → σ → Except String Unit × σ
  /-- The number of messages that wait on a topic. -/
  waiting : String → σ → Nat
  /-- Hands out the message that has waited longest on a topic. -/
  take : String → σ → Option Message × σ

/-- A stream over a topic, and whether it has ended. -/
structure Stream where
  topic : String
  ended : Bool
deriving DecidableEq, Repr

/-- What a poll of a stream answers. -/
inductive Poll
  | message (message : Message)
  | ended
  | closed
deriving DecidableEq, Repr

namespace Stream

/-- A new stream over a topic. -/
def onTopic (topic : String) : Stream :=
  ⟨topic, false⟩

/-- Polls a stream. The poll that finds nothing ends the stream, and every later one finds it
closed. -/
def poll {σ : Type} (transport : Transport σ) (stream : Stream) (state : σ) : Poll × Stream × σ :=
  if stream.ended then (.closed, stream, state)
  else match transport.take stream.topic state with
    | (some message, state) => (.message message, stream, state)
    | (none, state) => (.ended, { stream with ended := true }, state)

end Stream

namespace Transport

variable {σ : Type}

/-- Takes up to a number of messages off a topic. -/
def takeUpTo (transport : Transport σ) (topic : String) : Nat → σ → List Message × σ
  | 0, state => ([], state)
  | count + 1, state =>
    match transport.take topic state with
    | (some message, state) =>
      let (messages, state) := takeUpTo transport topic count state
      (message :: messages, state)
    | (none, state) => ([], state)

/-- Takes all messages that wait on a topic. -/
def drain (transport : Transport σ) (topic : String) (state : σ) : List Message × σ :=
  transport.takeUpTo topic (transport.waiting topic state) state

end Transport

end Expunge
