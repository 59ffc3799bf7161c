import Expunge.Delivery
import Expunge.Proofs.Batch
import Expunge.Transport.Lines
import Mathlib.Data.List.Forall2

/-!
# Deliveries on lines

The batches of a job cut its queries into pieces of one size (`isCut_batches`). Delivered to an
output that takes everything, they are all sent (`deliver_unlimited`). What the output holds then,
cut at line feeds, is a line for every batch (`splitOn_flatMap_lineBytes`), which is read as the
batch (`readLine_toLine`).
-/

namespace Expunge

/-! ## Pieces -/

section
variable {α : Type} {size : Nat} {items piece : List α}

/-- A piece has at least one item and at most as many as it may. -/
theorem length_of_mem_pieces (hsize : 1 ≤ size) (h : piece ∈ pieces size items) :
    1 ≤ piece.length ∧ piece.length ≤ size := by
  induction items using pieces.induct size with
  | case1 => simp at h
  | case2 first rest ih =>
    rw [pieces_cons, List.mem_cons] at h
    rcases h with rfl | h
    · rw [List.length_cons, List.length_take]
      omega
    · exact ih h

/-- Only the last piece may be shorter than the others. -/
theorem length_of_mem_dropLast_pieces (hsize : 1 ≤ size)
    (h : piece ∈ (pieces size items).dropLast) : piece.length = size := by
  induction items using pieces.induct size with
  | case1 => simp at h
  | case2 first rest ih =>
    rw [pieces_cons] at h
    cases hrest : rest.drop (size - 1) with
    | nil =>
      rw [hrest, pieces_nil] at h
      cases h
    | cons next others =>
      -- something is left for another piece, so the first one is full
      have hlong : size - 1 < rest.length := by
        rw [← Nat.not_le, ← List.drop_eq_nil_iff, hrest]
        exact List.cons_ne_nil _ _
      rw [hrest, pieces_cons, List.dropLast_cons_cons, List.mem_cons, ← pieces_cons,
        ← hrest] at h
      rcases h with rfl | h
      · rw [List.length_cons, List.length_take]
        omega
      · exact ih h

end

/-! ## Batches -/

/-- Batches that cut the queries of a job into pieces of a size: numbered from zero, all but the
last of that size and none empty, and nothing lost, added or moved. -/
structure IsCut (job : String) (size : Nat) (queries : List Query) (batches : List Batch) :
    Prop where
  job : ∀ batch ∈ batches, batch.job = job
  numbered : batches.map Batch.sequence = (List.range batches.length).map UInt64.ofNat
  sized : ∀ batch ∈ batches, 1 ≤ batch.queries.length ∧ batch.queries.length ≤ size
  full : ∀ batch ∈ batches.dropLast, batch.queries.length = size
  complete : batches.flatMap Batch.queries = queries

namespace Delivery

variable {job topic : String} {size : Nat} {queries : List Query}

theorem queries_batches : (batches job size queries).map Batch.queries = pieces size queries := by
  refine List.ext_getElem (by simp [batches]) fun i _ _ => ?_
  simp [batches]

/-- The batches of a job cut its queries into pieces. -/
theorem isCut_batches (hsize : 1 ≤ size) : IsCut job size queries (batches job size queries) where
  job := by
    intro batch hbatch
    obtain ⟨i, hi, rfl⟩ := List.mem_mapIdx.1 hbatch
    rfl
  numbered := by
    refine List.ext_getElem (by simp) fun i _ _ => ?_
    simp [batches]
  sized := by
    intro batch hbatch
    exact length_of_mem_pieces hsize (queries_batches ▸ List.mem_map_of_mem hbatch)
  full := by
    intro batch hbatch
    have hpiece : batch.queries ∈ (pieces size queries).dropLast := by
      rw [← queries_batches, ← List.map_dropLast]
      exact List.mem_map_of_mem hbatch
    exact length_of_mem_dropLast_pieces hsize hpiece
  complete := by
    rw [List.flatMap_def, queries_batches, flatten_pieces]

/-- An output that takes everything takes all batches, each on a line. -/
theorem sendAll_unlimited (batches : List Batch) (written : List UInt8) :
    sendAll LineOutput.transport topic batches ⟨written, none, false⟩ =
      (.ok (), ⟨written ++ batches.flatMap fun batch => LineOutput.lineBytes (.queryBatch batch),
        none, false⟩) := by
  induction batches generalizing written with
  | nil => simp [sendAll]
  | cons batch rest ih =>
    have hsend : LineOutput.transport.send topic (.queryBatch batch) ⟨written, none, false⟩ =
        (.ok (), ⟨written ++ LineOutput.lineBytes (.queryBatch batch), none, false⟩) := by
      simp [LineOutput.transport, LineOutput.send, LineOutput.append, LineOutput.accepted]
    rw [sendAll, hsend]
    simp only [ih, List.flatMap_cons, List.append_assoc]

/-- A delivery to an output that takes everything succeeds. -/
theorem deliver_unlimited :
    deliver LineOutput.transport topic size job queries .unlimited =
      (.ok (batches job size queries).length,
        ⟨(batches job size queries).flatMap fun batch => LineOutput.lineBytes (.queryBatch batch),
          none, false⟩) := by
  rw [deliver, LineOutput.unlimited, sendAll_unlimited]
  rfl

end Delivery

/-! ## Lines -/

namespace LineOutput

/-- The message that the bytes of a line are read as. -/
def readLine (line : List UInt8) : Except Refusal Message :=
  (Json.Document.ofSymbols (Text.symbolsOfBytes line)).readShape (Message.decode? Json.depthLimit)

/-- The bytes of a message's line are read like the text of the line. -/
theorem readLine_bytes (message : Message) :
    readLine (bytes message.toLine) = Message.read (Text.symbols message.toLine) := by
  have hsymbols : Text.symbolsOfBytes (bytes message.toLine) = Text.symbols message.toLine :=
    Text.symbolsOfBytes_flatMap message.toLine.toList
  rw [readLine, hsymbols, Message.read]

/-- The bytes of a message's line are read as the message. -/
theorem readLine_toLine {message : Message} (h : message.batch.IsExact) :
    readLine (bytes message.toLine) = .ok message :=
  (readLine_bytes message).trans (Message.read_toLine h)

/-- No line feed stands in a message's line. -/
theorem lineFeed_not_mem_toLine (message : Message) : 10 ∉ bytes message.toLine := by
  rw [bytes, List.mem_flatMap]
  rintro ⟨c, hc, hfeed⟩
  obtain rfl := Text.lineFeed_mem_encode_iff.1 hfeed
  rw [Message.toLine, Json.write, String.toList_ofList] at hc
  exact Json.lineFeed_not_mem_writeChars _ hc

/-- What is written for messages is cut into their lines at line feeds; what follows the last one
without a line feed is left over. -/
theorem splitOn_flatMap_lineBytes_append (messages : List Message) (part : List UInt8)
    (h : 10 ∉ part) :
    (messages.flatMap lineBytes ++ part).splitOn 10 =
      messages.map (fun message => bytes message.toLine) ++ [part] := by
  induction messages with
  | nil =>
    rw [List.flatMap_nil, List.nil_append, List.map_nil, List.nil_append,
      List.splitOn_eq_singleton h]
  | cons message messages ih =>
    have hfeed : bytes "\n" = [10] := by decide
    rw [List.flatMap_cons, lineBytes, hfeed, List.append_assoc, List.append_assoc,
      List.singleton_append,
      List.splitOn_append_cons_self_of_not_mem (lineFeed_not_mem_toLine message), ih, List.map_cons,
      List.cons_append]

/-- Nothing is left over behind the last line. -/
theorem splitOn_flatMap_lineBytes (messages : List Message) :
    (messages.flatMap lineBytes).splitOn 10 =
      messages.map (fun message => bytes message.toLine) ++ [[]] := by
  have h := splitOn_flatMap_lineBytes_append messages [] List.not_mem_nil
  rwa [List.append_nil] at h

end LineOutput

end Expunge
