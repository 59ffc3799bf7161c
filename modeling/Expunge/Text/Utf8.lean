/-!
# Bytes as text

File contents are bytes, and a document may hold bytes of no well-formed UTF-8 sequence in places
that nobody reads. So bytes are decoded to a list of symbols in which `none` stands for such a
byte, and it is left to the reader of the document whether the place matters.
-/

namespace Expunge.Text

/-- A character, or `none` for a byte that belongs to no well-formed UTF-8 sequence. -/
abbrev Symbol := Option Char

/-- The symbols of a text: its characters. -/
def symbols (text : String) : List Symbol :=
  text.toList.map some

/-- The six payload bits of a continuation byte. -/
def continuation? (byte : UInt8) : Option Nat :=
  if 0x80 ≤ byte ∧ byte < 0xc0 then some (byte.toNat - 0x80) else none

/-- The payload of `count` continuation bytes at the start of `bytes`, appended to `payload`. -/
def continuations? (count payload : Nat) (bytes : List UInt8) : Option Nat :=
  match count, bytes with
  | 0, _ => some payload
  | _ + 1, [] => none
  | count + 1, byte :: rest => do
    let bits ← continuation? byte
    continuations? count (payload * 64 + bits) rest

/-- The character of a code point that needs at least `least`, if it is one. -/
def scalar? (least point : Nat) : Option Char :=
  if h : point.isValidChar then
    if least ≤ point then some (Char.ofNatAux point h) else none
  else none

/-- The character whose UTF-8 sequence starts with the byte `head` and goes on in `rest`, and the
number of bytes it takes from `rest`. Overlong sequences and surrogates are ill-formed. -/
def sequence? (head : UInt8) (rest : List UInt8) : Option (Char × Nat) := do
  if head < 0x80 then
    return (← scalar? 0 head.toNat, 0)
  else if 0xc0 ≤ head ∧ head < 0xe0 then
    return (← scalar? 0x80 (← continuations? 1 (head.toNat - 0xc0) rest), 1)
  else if 0xe0 ≤ head ∧ head < 0xf0 then
    return (← scalar? 0x800 (← continuations? 2 (head.toNat - 0xe0) rest), 2)
  else if 0xf0 ≤ head ∧ head < 0xf8 then
    return (← scalar? 0x10000 (← continuations? 3 (head.toNat - 0xf0) rest), 3)
  else
    none

/-- Bytes as symbols. -/
def symbolsOfBytes : List UInt8 → List Symbol
  | [] => []
  | head :: rest =>
    match sequence? head rest with
    | some (c, taken) => some c :: symbolsOfBytes (rest.drop taken)
    | none => none :: symbolsOfBytes rest
termination_by bytes => bytes.length
decreasing_by all_goals simp only [List.length_cons, List.length_drop]; omega

/-- The text that symbols spell, if every one of them is a character. -/
def ofSymbols? (text : List Symbol) : Option String :=
  (text.mapM id).map String.ofList

end Expunge.Text
