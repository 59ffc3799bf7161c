import Expunge.Transport.Basic

/-!
# Topics in memory

Every topic is a queue of its own: a message waits on its topic until a stream takes it, and the
messages of a topic are taken in the order in which they were sent.
-/

namespace Expunge

/-- The messages that wait on each topic, the oldest first. -/
structure Topics where
  waiting : String → List Message

namespace Topics

/-- No message waits anywhere. -/
def empty : Topics :=
  ⟨fun _ => []⟩

/-- Replaces the messages that wait on a topic. -/
def set (topics : Topics) (topic : String) (messages : List Message) : Topics :=
  ⟨fun other => if other = topic then messages else topics.waiting other⟩

/-- Adds a message to a topic. -/
def push (topics : Topics) (topic : String) (message : Message) : Topics :=
  topics.set topic (topics.waiting topic ++ [message])

/-- Takes the oldest message off a topic. -/
def pop (topics : Topics) (topic : String) : Option Message × Topics :=
  match topics.waiting topic with
  | [] => (none, topics)
  | message :: rest => (some message, topics.set topic rest)

@[simp] theorem waiting_set (topics : Topics) (topic other : String) (messages : List Message) :
    (topics.set topic messages).waiting other =
      if other = topic then messages else topics.waiting other := rfl

@[simp] theorem waiting_push (topics : Topics) (topic other : String) (message : Message) :
    (topics.push topic message).waiting other =
      topics.waiting other ++ if other = topic then [message] else [] := by
  by_cases h : other = topic <;> simp [push, h]

/-- The transport over topics. Sending never fails. -/
def transport : Transport Topics where
  send topic message topics := (.ok (), topics.push topic message)
  waiting topic topics := (topics.waiting topic).length
  take topic topics := topics.pop topic

end Topics

end Expunge
