import Expunge.Query
import Expunge.Refusal

/-!
# Batches

The queries of a job are handed on in batches, numbered from zero. A batch travels as a message.
-/

namespace Expunge

/-- A slice of the queries of a job. -/
structure Batch where
  job : String
  /-- The place of the batch within the job, counted from zero. -/
  sequence : UInt64
  queries : List Query
deriving DecidableEq, Repr

/-- What is sent to a topic. -/
inductive Message
  | queryBatch (batch : Batch)
deriving DecidableEq, Repr

namespace Batch

/-- A batch as a document holds it. -/
def toJson (batch : Batch) : Json :=
  .ofFields
    [("job_id", .ofString batch.job),
     ("sequence", .ofNat batch.sequence.toNat),
     ("queries", .array (batch.queries.map Query.toJson))]

/-- The batch that a document holds. -/
def decode? (reading : Json.Reading) (room : Nat) (value : Json) : Option Batch := do
  let field ← value.fields? room ["job_id", "sequence", "queries"]
  return {
    job := ← (← field "job_id").text?
    sequence := UInt64.ofNat (← (← field "sequence").nat?)
    queries := ← (← field "queries").list? (room - 1) (Query.decode? reading (room - 2)) }

end Batch

namespace Message

/-- A message as a document holds it. -/
def toJson : Message → Json
  | queryBatch batch => .ofFields [("message_type", .ofString "QueryBatch"), ("data", batch.toJson)]

/-- A message as a line of text, without the line feed. -/
def toLine (message : Message) : String :=
  message.toJson.write

/-- The kinds of messages by their names. -/
def kinds : List (String × (Batch → Message)) :=
  [("QueryBatch", queryBatch)]

/-- The message that a document holds: an object with its kind and its data, or an array of the name
of its kind and its data. Data that comes before the kind is held back until the kind is known. -/
def decode? (room : Nat) : Json → Option Message
  | .object members => do
    guard (0 < room)
    let named ← Json.members? ["message_type", "data"] members
    let data ← named.lookup "data"
    let make ← (← named.lookup "message_type").variant? .direct (room - 1) kinds
    let dataFirst := (named.map (·.1)).idxOf "data" < (named.map (·.1)).idxOf "message_type"
    if dataFirst then
      guard (data.isReadable (room - 1))
      return make (← Batch.decode? .heldBack (room - 1) data)
    else
      return make (← Batch.decode? .direct (room - 1) data)
  | .array [tag, data] => do
    guard (0 < room)
    let make ← kinds.lookup (← tag.text?)
    return make (← Batch.decode? .direct (room - 1) data)
  | _ => none

/-- The message that a text holds. -/
def read (text : List Text.Symbol) : Except Refusal Message :=
  (Json.Document.ofSymbols text).readShape (decode? Json.depthLimit)

end Message

end Expunge
