import Expunge.Transport.Topics

/-!
# Sends one after the other

What becomes of messages that are sent to a topic one after the other, over any transport and over
topics in memory. Topics take every message (`Topics.takesAll`), keep it behind those that wait
(`Topics.waiting_afterSends`) and give back all that wait in their order (`Topics.drain_spec`).
-/

namespace Expunge

namespace Transport

variable {σ : Type}

/-- The state after messages were sent to a topic one after the other, whatever became of them. -/
def afterSends (transport : Transport σ) (topic : String) (messages : List Message) (state : σ) :
    σ :=
  messages.foldl (fun state message => (transport.send topic message state).2) state

/-- Every one of some messages is taken when they are sent to a topic one after the other. -/
def TakesAll (transport : Transport σ) (topic : String) : List Message → σ → Prop
  | [], _ => True
  | message :: rest, state =>
    (transport.send topic message state).1 = .ok () ∧
      TakesAll transport topic rest (transport.send topic message state).2

@[simp] theorem afterSends_nil (transport : Transport σ) (topic : String) (state : σ) :
    transport.afterSends topic [] state = state := rfl

@[simp] theorem afterSends_cons (transport : Transport σ) (topic : String) (message : Message)
    (rest : List Message) (state : σ) :
    transport.afterSends topic (message :: rest) state =
      transport.afterSends topic rest (transport.send topic message state).2 := rfl

theorem afterSends_append (transport : Transport σ) (topic : String) (first rest : List Message)
    (state : σ) :
    transport.afterSends topic (first ++ rest) state =
      transport.afterSends topic rest (transport.afterSends topic first state) :=
  List.foldl_append

end Transport

/-! ## Topics in memory -/

namespace Topics

variable {topics : Topics} {topic other : String}

theorem take_of_nil (h : topics.waiting topic = []) :
    transport.take topic topics = (none, topics) := by
  simp only [transport, pop, h]

theorem take_of_cons {message : Message} {rest : List Message}
    (h : topics.waiting topic = message :: rest) :
    transport.take topic topics = (some message, topics.set topic rest) := by
  simp only [transport, pop, h]

/-- Some of the messages that wait on a topic are taken off it in their order, and other topics are
left alone. -/
theorem takeUpTo_spec (topic other : String) (count : Nat) (topics : Topics) :
    (transport.takeUpTo topic count topics).1 = (topics.waiting topic).take count ∧
      (transport.takeUpTo topic count topics).2.waiting other =
        if other = topic then (topics.waiting topic).drop count else topics.waiting other := by
  induction count generalizing topics with
  | zero =>
    simp only [Transport.takeUpTo, List.take_zero, List.drop_zero, true_and]
    split
    · next heq => rw [heq]
    · rfl
  | succ count ih =>
    cases hwaiting : topics.waiting topic with
    | nil =>
      simp only [Transport.takeUpTo, take_of_nil hwaiting, List.take_nil, List.drop_nil, true_and]
      split
      · next heq => rw [heq, hwaiting]
      · rfl
    | cons message rest =>
      obtain ⟨htaken, hleft⟩ := ih (topics.set topic rest)
      rw [waiting_set, if_pos rfl] at htaken hleft
      simp only [Transport.takeUpTo, take_of_cons hwaiting, htaken, hleft, List.take_succ_cons,
        List.drop_succ_cons, true_and]
      split
      · rfl
      · next hne => rw [waiting_set, if_neg hne]

/-- All messages that wait on a topic are taken off it. -/
theorem drain_spec (topic other : String) (topics : Topics) :
    (transport.drain topic topics).1 = topics.waiting topic ∧
      (transport.drain topic topics).2.waiting other =
        if other = topic then [] else topics.waiting other := by
  have hcount : transport.waiting topic topics = (topics.waiting topic).length := rfl
  obtain ⟨htaken, hleft⟩ := takeUpTo_spec topic other (transport.waiting topic topics) topics
  rw [hcount, List.take_length] at htaken
  rw [hcount, List.drop_length] at hleft
  exact ⟨htaken, hleft⟩

/-- Topics in memory take every message. -/
theorem takesAll (messages : List Message) (topics : Topics) :
    transport.TakesAll topic messages topics := by
  induction messages generalizing topics with
  | nil => trivial
  | cons message rest ih => exact ⟨rfl, ih _⟩

/-- Messages that are sent to a topic wait there behind those that waited before. -/
theorem waiting_afterSends (messages : List Message) (topics : Topics) :
    (transport.afterSends topic messages topics).waiting other =
      topics.waiting other ++ if other = topic then messages else [] := by
  induction messages generalizing topics with
  | nil => simp
  | cons message rest ih =>
    have hsend : (transport.send topic message topics).2 = topics.push topic message := rfl
    rw [Transport.afterSends_cons, hsend, ih, waiting_push, List.append_assoc]
    split <;> rfl

end Topics

end Expunge
