import Expunge.Pieces
import Expunge.Transport.Basic

/-!
# Delivery

The queries of a job are sent to a topic in batches of one size, numbered from zero. The first
batch that cannot be sent ends the delivery.
-/

namespace Expunge

/-- A batch that could not be sent. -/
structure PublishError where
  job : String
  topic : String
  sequence : UInt64
  reason : String
deriving DecidableEq, Repr

namespace PublishError

/-- The text of an error. -/
def message (error : PublishError) : String :=
  "Failed to publish batch " ++ String.ofList (Text.ofNat error.sequence.toNat) ++ " of job "
    ++ error.job ++ " to " ++ error.topic ++ ": " ++ error.reason

end PublishError

namespace Delivery

/-- The batches of a job's queries, each of the given size but the last. -/
def batches (job : String) (size : Nat) (queries : List Query) : List Batch :=
  (pieces size queries).mapIdx fun sequence queries => ⟨job, UInt64.ofNat sequence, queries⟩

/-- Sends batches to a topic until one cannot be sent. -/
def sendAll {σ : Type} (transport : Transport σ) (topic : String) :
    List Batch → σ → Except PublishError Unit × σ
  | [], state => (.ok (), state)
  | batch :: rest, state =>
    match transport.send topic (.queryBatch batch) state with
    | (.ok (), state) => sendAll transport topic rest state
    | (.error reason, state) => (.error ⟨batch.job, topic, batch.sequence, reason⟩, state)

/-- Sends the queries of a job to a topic in batches of a size, and says how many batches it
sent. -/
def deliver {σ : Type} (transport : Transport σ) (topic : String) (size : Nat) (job : String)
    (queries : List Query) (state : σ) : Except PublishError Nat × σ :=
  let batches := batches job size queries
  let (outcome, state) := sendAll transport topic batches state
  (outcome.map fun _ => batches.length, state)

end Delivery

end Expunge
