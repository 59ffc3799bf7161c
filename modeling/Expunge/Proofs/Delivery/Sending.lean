import Expunge.Proofs.Delivery
import Expunge.Proofs.Pieces
import Expunge.Proofs.Transport
import Expunge.Transport.Breaking

/-!
# What a delivery sends

The batches of a job are the consecutive slices of its queries (`batches_eq_map_batch`). Over any
transport, a delivery sends them one after the other; it succeeds if all of them are taken
(`deliver_of_takesAll`) and stops at the first one that is refused (`deliver_of_refused`). Main
result: `sends_batches_until_refused`.
-/

namespace Expunge

namespace Delivery

variable {σ : Type} {transport : Transport σ} {topic job : String} {size : Nat}
  {queries : List Query} {state : σ}

/-- The number of batches that a delivery cuts queries into. -/
def batchCount (size : Nat) (queries : List Query) : Nat :=
  queries.length ⌈/⌉ max size 1

/-- The batch of the given number: the slice of that number of a job's queries. -/
def batch (job : String) (size : Nat) (queries : List Query) (number : Nat) : Batch :=
  ⟨job, UInt64.ofNat number, slice size queries number⟩

/-- The messages with the first batches of a job, up to a number of them. -/
def messages (job : String) (size : Nat) (queries : List Query) (count : Nat) : List Message :=
  (List.range count).map fun number => .queryBatch (batch job size queries number)

theorem messages_succ (job : String) (size : Nat) (queries : List Query) (count : Nat) :
    messages job size queries (count + 1) =
      messages job size queries count ++ [.queryBatch (batch job size queries count)] := by
  rw [messages, List.range_succ, List.map_append]
  rfl

/-- The batches of a job are the slices of its queries, numbered from zero. -/
theorem batches_eq_map_batch (job : String) (size : Nat) (queries : List Query) :
    batches job size queries =
      (List.range (batchCount size queries)).map (batch job size queries) := by
  rw [batches, pieces_eq_map_slice, batchCount]
  refine List.ext_getElem (by simp) fun i _ _ => ?_
  simp [batch]

theorem length_batches (job : String) (size : Nat) (queries : List Query) :
    (batches job size queries).length = batchCount size queries := by
  rw [batches_eq_map_batch, List.length_map, List.length_range]

/-- The slices of a job's queries cut them into pieces. -/
theorem isCut_batch :
    IsCut job (max size 1) queries
      ((List.range (batchCount size queries)).map (batch job size queries)) := by
  have hslice : slice (max size 1) queries = slice size queries := by
    funext number
    rw [slice, slice, Nat.max_assoc, Nat.max_self]
  have hbatch : batch job (max size 1) queries = batch job size queries := by
    funext number
    rw [batch, hslice, batch]
  have hcount : batchCount (max size 1) queries = batchCount size queries := by
    rw [batchCount, Nat.max_assoc, Nat.max_self, batchCount]
  rw [← hbatch, ← hcount, ← batches_eq_map_batch]
  exact isCut_batches (Nat.le_max_right size 1)

/-- The batch of a number stands after as many batches. -/
theorem batches_eq_append {number : Nat} (h : number < batchCount size queries) :
    batches job size queries = (List.range number).map (batch job size queries) ++
      batch job size queries number :: (batches job size queries).drop (number + 1) := by
  have hlt : number < (batches job size queries).length := by
    rwa [length_batches]
  have htake : (batches job size queries).take number =
      (List.range number).map (batch job size queries) := by
    rw [batches_eq_map_batch, ← List.map_take, List.take_range, Nat.min_eq_left h.le]
  have hget : (batches job size queries)[number] = batch job size queries number := by
    simp [batches_eq_map_batch]
  rw [← htake, ← hget, List.getElem_cons_drop, List.take_append_drop]

/-- Batches that are taken lead to those after them. -/
theorem sendAll_append {sent rest : List Batch}
    (h : transport.TakesAll topic (sent.map .queryBatch) state) :
    sendAll transport topic (sent ++ rest) state =
      sendAll transport topic rest (transport.afterSends topic (sent.map .queryBatch) state) := by
  induction sent generalizing state with
  | nil => rfl
  | cons batch sent ih =>
    obtain ⟨htaken, hsent⟩ := h
    cases hsend : transport.send topic (.queryBatch batch) state with
    | mk answer next =>
      rw [hsend] at htaken hsent
      cases htaken
      rw [List.cons_append, sendAll, hsend, List.map_cons, Transport.afterSends_cons, hsend]
      exact ih hsent

/-- A batch that is refused ends a delivery. -/
theorem sendAll_of_refused {batch : Batch} {rest : List Batch} {reason : String}
    (h : (transport.send topic (.queryBatch batch) state).1 = .error reason) :
    sendAll transport topic (batch :: rest) state =
      (.error ⟨batch.job, topic, batch.sequence, reason⟩,
        (transport.send topic (.queryBatch batch) state).2) := by
  cases hsend : transport.send topic (.queryBatch batch) state with
  | mk answer next =>
    rw [hsend] at h
    cases h
    rw [sendAll, hsend]

/-- A delivery succeeds if all batches are taken. It sent every one of them, and nothing else. -/
theorem deliver_of_takesAll
    (h : transport.TakesAll topic (messages job size queries (batchCount size queries)) state) :
    deliver transport topic size job queries state =
      (.ok (batchCount size queries),
        transport.afterSends topic (messages job size queries (batchCount size queries))
          state) := by
  have hmessages : (batches job size queries).map .queryBatch =
      messages job size queries (batchCount size queries) := by
    rw [batches_eq_map_batch, List.map_map]
    rfl
  have hsend : sendAll transport topic (batches job size queries) state = (.ok (),
      transport.afterSends topic (messages job size queries (batchCount size queries)) state) := by
    rw [← hmessages] at h ⊢
    rw [← List.append_nil (batches job size queries), sendAll_append h, List.append_nil]
    rfl
  simp only [deliver, hsend, length_batches]
  rfl

/-- A delivery fails with the first batch that is refused. It sent the batches before that one, that
one, and nothing else. -/
theorem deliver_of_refused {number : Nat} {reason : String}
    (hnumber : number < batchCount size queries)
    (hbefore : transport.TakesAll topic (messages job size queries number) state)
    (hrefused : (transport.send topic (.queryBatch (batch job size queries number))
      (transport.afterSends topic (messages job size queries number) state)).1 = .error reason) :
    deliver transport topic size job queries state =
      (.error ⟨job, topic, UInt64.ofNat number, reason⟩,
        transport.afterSends topic (messages job size queries (number + 1)) state) := by
  have hmessages : ((List.range number).map (batch job size queries)).map .queryBatch =
      messages job size queries number := by
    rw [List.map_map]
    rfl
  have hsend : sendAll transport topic (batches job size queries) state =
      (.error ⟨job, topic, UInt64.ofNat number, reason⟩,
        transport.afterSends topic (messages job size queries (number + 1)) state) := by
    rw [batches_eq_append hnumber, sendAll_append (by rwa [hmessages]), hmessages,
      sendAll_of_refused hrefused, messages_succ, Transport.afterSends_append]
    rfl
  simp only [deliver, hsend]
  rfl

/-- Over topics in memory a delivery succeeds, and all batches wait behind what waited before. -/
theorem deliver_topics (topics : Topics) :
    ∃ delivered, deliver Topics.transport topic size job queries topics =
        (.ok (batchCount size queries), delivered) ∧
      delivered.waiting topic =
        topics.waiting topic ++ messages job size queries (batchCount size queries) := by
  refine ⟨_, deliver_of_takesAll (Topics.takesAll _ topics), ?_⟩
  rw [Topics.waiting_afterSends, if_pos rfl]

/-- A delivery cuts the queries of a job into slices of a size, numbered from zero, and sends a
batch for each of them, in their order and over whatever transport. If all are taken, it says how
many there were. Otherwise it fails with the first one that is refused, says which one that was and
why, and sends none after it. Topics in memory take all of them: whoever drains the topic later gets
what waited before and then the batches, unless others were at the topic in between. -/
theorem sends_batches_until_refused (transport : Transport σ) (topic job : String) (size : Nat)
    (queries : List Query) (state : σ) :
    IsCut job (max size 1) queries
        ((List.range (batchCount size queries)).map (batch job size queries)) ∧
      (transport.TakesAll topic (messages job size queries (batchCount size queries)) state →
        deliver transport topic size job queries state =
          (.ok (batchCount size queries),
            transport.afterSends topic (messages job size queries (batchCount size queries))
              state)) ∧
      (∀ number < batchCount size queries, ∀ reason,
        transport.TakesAll topic (messages job size queries number) state →
        (transport.send topic (.queryBatch (batch job size queries number))
          (transport.afterSends topic (messages job size queries number) state)).1 =
            .error reason →
        deliver transport topic size job queries state =
          (.error ⟨job, topic, UInt64.ofNat number, reason⟩,
            transport.afterSends topic (messages job size queries (number + 1)) state)) ∧
      ∀ topics, ∃ delivered, deliver Topics.transport topic size job queries topics =
          (.ok (batchCount size queries), delivered) ∧
        ∀ later : Topics, later.waiting topic = delivered.waiting topic →
          (Topics.transport.drain topic later).1 =
            topics.waiting topic ++ messages job size queries (batchCount size queries) := by
  refine ⟨isCut_batch, deliver_of_takesAll, ?_, ?_⟩
  · intro number hnumber reason hbefore hrefused
    exact deliver_of_refused hnumber hbefore hrefused
  · intro topics
    obtain ⟨delivered, hdeliver, hwaiting⟩ := deliver_topics topics
    refine ⟨delivered, hdeliver, ?_⟩
    intro later hlater
    rw [(Topics.drain_spec topic topic later).1, hlater, hwaiting]

end Delivery

/-! Five queries in batches of two, over transports that take one batch or all three. -/

namespace Delivery

namespace FiveTables

/-- A query for a table. -/
def query (table : String) : Query where
  mapper := "m"
  executor := .athena
  format := .json
  database := "lab"
  table := table
  columns := [.simple "id" [.integer 7]]
  partitionKeys := []
  roleArn := none
  deleteOldVersions := true

def queries : List Query :=
  ["a", "b", "c", "d", "e"].map query

/-- A transport that takes a number of messages. -/
def point (remaining : Nat) : BreakingPoint :=
  ⟨remaining, "full"⟩

end FiveTables

open FiveTables in
theorem sends_batches_until_refused_fiveTables :
    BreakingPoint.transport.TakesAll "erasures" (messages "job" 2 queries 1) (point 1) ∧
      deliver BreakingPoint.transport "erasures" 2 "job" queries (point 1) =
        (.error ⟨"job", "erasures", 1, "full"⟩, point 0) ∧
      BreakingPoint.transport.TakesAll "erasures" (messages "job" 2 queries 3) (point 3) ∧
      deliver BreakingPoint.transport "erasures" 2 "job" queries (point 3) = (.ok 3, point 0) := by
  obtain ⟨_, _, hrefused, _⟩ :=
    sends_batches_until_refused BreakingPoint.transport "erasures" "job" 2 queries (point 1)
  obtain ⟨_, htaken, _⟩ :=
    sends_batches_until_refused BreakingPoint.transport "erasures" "job" 2 queries (point 3)
  have hcount : batchCount 2 queries = 3 := by decide
  have hone : BreakingPoint.transport.TakesAll "erasures" (messages "job" 2 queries 1) (point 1) :=
    ⟨rfl, trivial⟩
  have hall : BreakingPoint.transport.TakesAll "erasures" (messages "job" 2 queries 3) (point 3) :=
    ⟨rfl, rfl, rfl, trivial⟩
  rw [hcount] at htaken
  exact ⟨hone, hrefused 1 (by decide) "full" hone rfl, hall, htaken hall⟩

end Delivery

end Expunge
