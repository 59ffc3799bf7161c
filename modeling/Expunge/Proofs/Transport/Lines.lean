import Expunge.Proofs.Delivery
import Expunge.Session
import Mathlib.Data.List.TakeDrop

/-!
# Lines in limited room

An output with room for a number of bytes takes what fits of every line. Lines that are written one
after the other leave what their bytes together leave (`append_append`), so an output always holds
the first bytes of all lines, as many as fit. A message is sent exactly if its line and all lines
before it fit together (`run_sends`). The output then holds the lines of the messages that were
sent, and a part of the next line without its line feed (`exists_cut`). Main result:
`complete_lines_are_sent`.
-/

namespace Expunge.LineOutput

/-- An output that nothing was written to, with room for a number of bytes, if that is limited. It
does not refuse to be flushed. -/
def empty (room : Option Nat) : LineOutput :=
  ⟨[], room, false⟩

/-- Whether a number of bytes fits into the room of an output. -/
def Fits (room : Option Nat) (count : Nat) : Prop :=
  ∀ limit ∈ room, count ≤ limit

instance (room : Option Nat) (count : Nat) : Decidable (Fits room count) :=
  inferInstanceAs (Decidable (∀ limit ∈ room, count ≤ limit))

/-- The lines of messages that are sent to topics. -/
def linesOf (sends : List (String × Message)) : List UInt8 :=
  (sends.map (·.2)).flatMap lineBytes

/-- To send messages one after the other, each to a topic. -/
def sending (sends : List (String × Message)) : List Action :=
  sends.map fun send => .send send.1 send.2

variable {room : Option Nat}

theorem Fits.mono {count larger : Nat} (h : Fits room larger) (hle : count ≤ larger) :
    Fits room count :=
  fun limit hlimit => hle.trans (h limit hlimit)

@[simp] theorem linesOf_cons (send : String × Message) (rest : List (String × Message)) :
    linesOf (send :: rest) = lineBytes send.2 ++ linesOf rest := rfl

@[simp] theorem linesOf_append (first rest : List (String × Message)) :
    linesOf (first ++ rest) = linesOf first ++ linesOf rest := by
  rw [linesOf, List.map_append, List.flatMap_append]
  rfl

theorem length_linesOf_le {first all : List (String × Message)} (h : first <+: all) :
    (linesOf first).length ≤ (linesOf all).length := by
  obtain ⟨rest, rfl⟩ := h
  rw [linesOf_append, List.length_append]
  exact Nat.le_add_right _ _

/-! ## Writing -/

@[simp] theorem append_nil (output : LineOutput) : output.append [] = output := by
  obtain ⟨written, room, refusesFlush⟩ := output
  cases room <;> simp [append, accepted]

/-- Bytes may be written in parts. -/
theorem append_append (output : LineOutput) (first second : List UInt8) :
    (output.append first).append second = output.append (first ++ second) := by
  cases hroom : output.room with
  | none => simp [append, accepted, hroom]
  | some limit =>
    have hleft :
        limit - (output.written.length + min (limit - output.written.length) first.length) =
          limit - output.written.length - first.length := by omega
    simp [append, accepted, hroom, List.take_append, hleft]

/-- An output that was empty holds the first bytes of all that was written, as many as fit. -/
theorem written_append_empty (room : Option Nat) (bytes : List UInt8) :
    ((empty room).append bytes).written = bytes.take (room.getD bytes.length) := by
  cases room <;> simp [empty, append, accepted]

theorem written_of_fits {bytes : List UInt8} (h : Fits room bytes.length) :
    ((empty room).append bytes).written = bytes := by
  rw [written_append_empty, List.take_eq_self_iff]
  cases room with
  | none => exact le_rfl
  | some limit => exact h limit rfl

/-- More bytes are not taken as a whole exactly if they do not fit behind the others. -/
theorem accepted_lt_iff (room : Option Nat) (bytes : List UInt8) {more : List UInt8}
    (h : more ≠ []) :
    (((empty room).append bytes).accepted more).length < more.length ↔
      ¬ Fits room (bytes ++ more).length := by
  have hpos := List.length_pos_iff.2 h
  cases room with
  | none => simp [empty, append, accepted, Fits]
  | some limit =>
    have haccepted : (((empty (some limit)).append bytes).accepted more).length =
        min (limit - min limit bytes.length) more.length := by
      simp [empty, append, accepted]
    rw [haccepted, List.length_append, Fits]
    simp only [Option.mem_some_iff, forall_eq']
    omega

/-! ## Sending -/

/-- A message is sent exactly if its line fits behind what was written before. Its line is written
as far as it fits in any case. -/
theorem send_append (message : Message) (bytes : List UInt8) :
    send message ((empty room).append bytes) =
      (if Fits room (bytes ++ lineBytes message).length then .ok ()
        else .error "Write error: disk full",
      (empty room).append (bytes ++ lineBytes message)) := by
  have hline : lineBytes message ≠ [] := List.append_ne_nil_of_right_ne_nil _ (by decide)
  rw [send]
  simp only [accepted_lt_iff room bytes hline, append_append]
  by_cases hfits : Fits room (bytes ++ lineBytes message).length
  · simp only [hfits, not_true_eq_false, if_false, if_true]
    rfl
  · simp only [hfits, not_false_eq_true, if_false, if_true]

/-- The reply to a message whose line is the last one of some bytes. -/
def replyTo (room : Option Nat) (bytes : List UInt8) : Reply :=
  if Fits room bytes.length then .sent else .refused "Write error: disk full"

theorem perform_send (topic : String) (message : Message) (bytes : List UInt8)
    (streams : List (String × Stream)) :
    Session.perform transport (.send topic message) ⟨(empty room).append bytes, streams⟩ =
      (replyTo room (bytes ++ lineBytes message),
        ⟨(empty room).append (bytes ++ lineBytes message), streams⟩) := by
  simp only [Session.perform, transport, send_append, replyTo]
  by_cases hfits : Fits room (bytes ++ lineBytes message).length
  · simp only [hfits, if_true]
  · simp only [hfits, if_false]

/-- Messages are sent exactly if their lines and all lines before fit together. -/
theorem run_sending (room : Option Nat) (sends : List (String × Message)) (bytes : List UInt8)
    (streams : List (String × Stream)) :
    Session.run transport (sending sends) ⟨(empty room).append bytes, streams⟩ =
      ((List.range sends.length).map fun k =>
          replyTo room (bytes ++ linesOf (sends.take (k + 1))),
        ⟨(empty room).append (bytes ++ linesOf sends), streams⟩) := by
  induction sends generalizing bytes with
  | nil => simp [sending, Session.run, linesOf]
  | cons send rest ih =>
    rw [sending, List.map_cons, Session.run, perform_send]
    rw [sending] at ih
    simp only [ih, List.length_cons, List.range_succ_eq_map, List.map_cons, List.map_map,
      List.take_succ_cons, linesOf_cons, List.append_assoc, Function.comp_def]
    simp [linesOf]

/-! ## The last line that fits -/

/-- Messages whose lines fit together, and messages after them, the first of which does not fit any
more. -/
structure IsFilled (room : Option Nat) (sent refused : List (String × Message)) : Prop where
  fits : Fits room (linesOf sent).length
  full : ∀ next ∈ refused.head?, ¬ Fits room (linesOf sent ++ lineBytes next.2).length

/-- Some of the messages, from the first one on, fit, and no more. -/
theorem exists_isFilled (room : Option Nat) (sends : List (String × Message)) :
    ∃ sent refused, sends = sent ++ refused ∧ IsFilled room sent refused := by
  induction sends using List.reverseRecOn with
  | nil => exact ⟨[], [], rfl, fun _ _ => Nat.zero_le _, by simp⟩
  | append_singleton sends send ih =>
    obtain ⟨sent, refused, rfl, hfilled⟩ := ih
    cases refused with
    | nil =>
      by_cases hfits : Fits room (linesOf (sent ++ [send])).length
      · exact ⟨sent ++ [send], [], by simp, hfits, by simp⟩
      · exact ⟨sent, [send], by simp, hfilled.fits, by simpa [linesOf] using hfits⟩
    | cons next rest =>
      exact ⟨sent, next :: (rest ++ [send]), by simp, hfilled.fits, hfilled.full⟩

/-- The messages that fit are sent, and no others. -/
theorem replies_of_isFilled {sent refused : List (String × Message)}
    (h : IsFilled room sent refused) :
    ((List.range (sent ++ refused).length).map fun k =>
        replyTo room (linesOf ((sent ++ refused).take (k + 1)))) =
      List.replicate sent.length .sent ++
        List.replicate refused.length (.refused "Write error: disk full") := by
  rw [List.length_append, List.range_add, List.map_append, List.map_map]
  congr 1
  · rw [List.eq_replicate_iff]
    refine ⟨by simp, ?_⟩
    intro reply hreply
    obtain ⟨k, hk, rfl⟩ := List.mem_map.1 hreply
    rw [List.mem_range] at hk
    rw [List.take_append_of_le_length hk, replyTo, if_pos]
    exact h.fits.mono (length_linesOf_le (List.take_prefix _ _))
  · rw [List.eq_replicate_iff]
    refine ⟨by simp, ?_⟩
    intro reply hreply
    obtain ⟨k, hk, rfl⟩ := List.mem_map.1 hreply
    cases refused with
    | nil => cases hk
    | cons next rest =>
      have htake : (sent ++ next :: rest).take (sent.length + k + 1) =
          sent ++ next :: rest.take k := by
        rw [Nat.add_assoc, List.take_length_add_append, List.take_succ_cons]
      rw [Function.comp_apply, htake, replyTo, if_neg]
      refine fun hfits => h.full next rfl (hfits.mono ?_)
      simp

/-- An output that is filled holds the lines that fit and a part of the next one without its line
feed. -/
theorem exists_written_of_isFilled {sent refused : List (String × Message)}
    (h : IsFilled room sent refused) :
    ∃ part, 10 ∉ part ∧
      ((empty room).append (linesOf (sent ++ refused))).written = linesOf sent ++ part := by
  cases refused with
  | nil =>
    refine ⟨[], List.not_mem_nil, ?_⟩
    rw [List.append_nil, List.append_nil, written_of_fits h.fits]
  | cons next rest =>
    have hfull := h.full next rfl
    cases room with
    | none => exact absurd (fun _ hlimit => nomatch hlimit) hfull
    | some limit =>
      have hfits : (linesOf sent).length ≤ limit := h.fits limit rfl
      have hshort : limit - (linesOf sent).length ≤ (bytes next.2.toLine).length := by
        have hline : (lineBytes next.2).length = (bytes next.2.toLine).length + 1 := by
          rw [lineBytes, List.length_append]
          rfl
        simp only [Fits, List.length_append, hline, Option.mem_some_iff, forall_eq'] at hfull
        omega
      refine ⟨(bytes next.2.toLine).take (limit - (linesOf sent).length), ?_, ?_⟩
      · exact fun hmem => lineFeed_not_mem_toLine next.2 (List.mem_of_mem_take hmem)
      · rw [written_append_empty, Option.getD_some, linesOf_append, linesOf_cons, lineBytes,
          List.take_append, List.take_of_length_le hfits, List.append_assoc,
          List.take_append_of_le_length hshort]

/-- No message's line holds a line feed of its own. Over an output with room for a number of bytes,
messages are sent one after the other: the output holds the first bytes of their lines, as many as
fit; a message is sent exactly if its line and all before it fit together; so none is sent after one
that was refused, and the complete lines of the output are those of the messages that were sent, in
their order. -/
theorem complete_lines_are_sent (room : Option Nat) (sends : List (String × Message)) :
    (∀ message : Message, 10 ∉ bytes message.toLine) ∧
    ∃ replies output,
      (Session.start (empty room)).run transport (sending sends) =
        (replies, Session.start output) ∧
      output.written = (linesOf sends).take (room.getD (linesOf sends).length) ∧
      (∀ k, replies[k]? = some .sent ↔
        k < sends.length ∧ Fits room (linesOf (sends.take (k + 1))).length) ∧
      ∃ sent refused, sends = sent ++ refused ∧
        replies = List.replicate sent.length .sent ++
          List.replicate refused.length (.refused "Write error: disk full") ∧
        (output.written.splitOn 10).dropLast = sent.map fun send => bytes send.2.toLine := by
  have hrun := run_sending room sends [] []
  simp only [append_nil, List.nil_append] at hrun
  refine ⟨lineFeed_not_mem_toLine, _, _, hrun, written_append_empty room _, ?_, ?_⟩
  · intro k
    rw [List.getElem?_map, Option.map_eq_some_iff]
    simp [replyTo, List.getElem?_eq_some_iff]
  · obtain ⟨sent, refused, rfl, hfilled⟩ := exists_isFilled room sends
    obtain ⟨part, hpart, hwritten⟩ := exists_written_of_isFilled hfilled
    refine ⟨sent, refused, rfl, replies_of_isFilled hfilled, ?_⟩
    rw [hwritten, linesOf, splitOn_flatMap_lineBytes_append _ part hpart, List.dropLast_concat,
      List.map_map, Function.comp_def]

end Expunge.LineOutput
