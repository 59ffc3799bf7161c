import Expunge.Toml.Node
import Expunge.Toml.Scalar

/-!
# TOML documents

A document is a sequence of lines, each a header or an entry, which build up a table. Main
definition: `Setting.ofToml?`, the table that a text spells.
-/

namespace Expunge

namespace Toml

open Text (Reader after? parts? looseParts?)

/-! ## Values -/

/-- A value without brackets. -/
def scalar? : Reader Setting := fun text =>
  if text.head? = some '"' ∨ text.head? = some '\'' then
    (string? text).map fun (text, rest) => (.text text, rest)
  else word? text

/-- An entry with the given reader of its value. -/
def pair? (value? : Reader Setting) : Reader (Key × Setting) := fun text => do
  let (key, rest) ← key? text
  let (value, rest) ← value? (skipSpace (← after? ['='] rest))
  return ((key, value), skipSpace rest)

/-- The table of a sequence of entries in one line. -/
def inlineTable? (entries : List (Key × Setting)) : Option Setting := do
  let entries ← entries.foldlM (fun table (key, value) => Entries.assign? key value table) []
  return .table (toSettings entries)

/-- A value with at most so many brackets around its parts. -/
def value? : Nat → Reader Setting
  | 0, text => scalar? text
  | depth + 1, text =>
    match text with
    | '[' :: rest => do
      let item? : Reader Setting := fun text => do
        let (value, rest) ← value? depth text
        return (value, skipGap false rest)
      let (items, rest) ← looseParts? (skipGap false) item? ']' (rest.length + 1) rest
      return (.list items, rest)
    | '\x7b' :: rest => do
      match skipSpace rest with
      | '\x7d' :: rest => some (.table [], rest)
      | rest =>
        let (entries, rest) ← parts? (pair? (value? depth)) '\x7d' (rest.length + 1) rest
        return (← inlineTable? entries, rest)
    | text => scalar? text

/-! ## Lines -/

/-- What a line of a document says. -/
inductive Line
  | header (key : Key)
  | element (key : Key)
  | pair (key : Key) (value : Setting)
  | empty

/-- A line, up to its comment or break. -/
def line? : Reader Line := fun text =>
  match skipSpace text with
  | '[' :: '[' :: rest => do
    let (key, rest) ← key? rest
    return (.element key, ← after? [']', ']'] rest)
  | '[' :: rest => do
    let (key, rest) ← key? rest
    return (.header key, ← after? [']'] rest)
  | text =>
    if (afterLine? text).isSome then some (.empty, text)
    else (pair? (value? depthLimit) text).map fun ((key, value), rest) => (.pair key value, rest)

/-- The lines of a document. The fuel bounds their number. -/
def lines? : Nat → List Char → Option (List Line)
  | _, [] => some []
  | 0, _ => none
  | fuel + 1, text => do
    let (line, rest) ← line? text
    return line :: (← lines? fuel (← afterLine? rest))

/-! ## Documents -/

/-- A document of which some lines have been taken in: its entries, and the key of the last
header. -/
structure Progress where
  current : Key
  entries : Entries

namespace Progress

/-- Takes in a line. -/
def add? (progress : Progress) : Line → Option Progress
  | .header key => do return ⟨key, ← progress.entries.openTable? key⟩
  | .element key => do return ⟨key, ← progress.entries.openElement? key⟩
  | .pair key value => do
    let assign (_ : Origin) (entries : Entries) : Option Entries := entries.assign? key value
    return ⟨progress.current,
      ← Entries.change? .implied assign .header progress.entries progress.current⟩
  | .empty => some progress

end Progress

/-- A text without the byte order mark at its start. -/
def skipMark : List Char → List Char
  | '\ufeff' :: text => text
  | text => text

end Toml

namespace Setting

/-- The table that a TOML text spells. -/
def ofToml? (text : List Char) : Option Setting := do
  let text := Toml.skipMark text
  let lines ← Toml.lines? (text.length + 1) text
  let progress ← lines.foldlM Toml.Progress.add? ⟨[], []⟩
  return .table (Toml.toSettings progress.entries)

end Setting

end Expunge
