import Expunge.Transport.Basic

/-!
# Messages as lines

Every message is written to one output as a line of JSON, whatever its topic. Whoever reads the
output reads the messages, so nothing waits on a topic. An output may have room for a number of
bytes only: it takes what fits of a line and refuses the rest.
-/

namespace Expunge

/-- An output of bytes: what was written to it, how many bytes it has room for in all, if that is
limited, and whether it refuses to be flushed. -/
structure LineOutput where
  written : List UInt8
  room : Option Nat
  refusesFlush : Bool
deriving DecidableEq, Repr

namespace LineOutput

/-- An output that takes everything. -/
def unlimited : LineOutput :=
  ⟨[], none, false⟩

/-- The bytes of a text. -/
def bytes (text : String) : List UInt8 :=
  text.toList.flatMap String.utf8EncodeChar

/-- The bytes of a message's line. -/
def lineBytes (message : Message) : List UInt8 :=
  bytes message.toLine ++ bytes "\n"

/-- The part of some bytes that an output takes. -/
def accepted (output : LineOutput) (line : List UInt8) : List UInt8 :=
  match output.room with
  | some room => line.take (room - output.written.length)
  | none => line

/-- Writes bytes, as many as fit. -/
def append (output : LineOutput) (line : List UInt8) : LineOutput :=
  { output with written := output.written ++ output.accepted line }

/-- Writes a message's line and flushes the output. -/
def send (message : Message) (output : LineOutput) : Except String Unit × LineOutput :=
  let line := lineBytes message
  let next := output.append line
  if (output.accepted line).length < line.length then (.error "Write error: disk full", next)
  else if output.refusesFlush then (.error "Write error: flush refused", next)
  else (.ok (), next)

/-- The transport over an output. -/
def transport : Transport LineOutput where
  send _ message output := send message output
  waiting _ _ := 0
  take _ output := (none, output)

end LineOutput

end Expunge
