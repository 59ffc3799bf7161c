import Expunge.Toml.Layout

/-!
# Strings and keys of TOML

Strings are written between double quotes, with escapes, or between single quotes, as they are; each
sort has a form of three quotes that may go over several lines. A key is a path of names, of which
each is a string of one line or a bare word.
-/

namespace Expunge.Toml

open Text (Reader isOrdinary hexChar? shortEscapes quoted?)

/-! ## Strings -/

/-- A string between single quotes, from after its opening quote. -/
def literal? (text : List Char) : Option (List Char × List Char) :=
  let isInside (c : Char) : Bool := isOrdinary c && c ≠ '\''
  match text.dropWhile isInside with
  | '\'' :: rest => some (text.takeWhile isInside, rest)
  | _ => none

/-- The end of a string of several lines, from after three of its quotes: up to two quotes more
belong to the string. -/
def closing (quote : Char) (rest : List Char) : List Char × List Char :=
  let inside := (rest.takeWhile (· = quote)).take 2
  (inside, rest.drop inside.length)

/-- A text without the line break at its start, if there is one. -/
def skipBreak (text : List Char) : List Char :=
  (afterBreak? text).getD text

/-- A string between three single quotes, from after the opening ones. A line break is kept as a
line feed. -/
def literalLines? : Reader (List Char)
  | [] => none
  | '\'' :: '\'' :: '\'' :: rest => some (closing '\'' rest)
  | '\r' :: '\n' :: rest => do
    let (text, rest) ← literalLines? rest
    return ('\n' :: text, rest)
  | c :: rest => do
    guard (c = '\n' || isOrdinary c)
    let (text, rest) ← literalLines? rest
    return (c :: text, rest)

/-- Whether the line that a text starts in has only space left, and a break. -/
def endsLine (text : List Char) : Bool :=
  (afterBreak? (skipSpace text)).isSome

/-- A string between three double quotes, from after the opening ones. A backslash at the end of a
line joins the string to the next character that is neither space nor a line break; `joining` says
whether one has been met. -/
def quotedLines? (joining : Bool) : Reader (List Char)
  | [] => none
  | '"' :: '"' :: '"' :: rest => some (closing '"' rest)
  | '\r' :: '\n' :: rest => do
    let (text, rest) ← quotedLines? joining rest
    return (if joining then text else '\n' :: text, rest)
  | '\\' :: 'u' :: a :: b :: c :: d :: rest => do
    let char ← hexChar? [a, b, c, d]
    let (text, rest) ← quotedLines? false rest
    return (char :: text, rest)
  | '\\' :: 'U' :: a :: b :: c :: d :: e :: f :: g :: h :: rest => do
    let char ← hexChar? [a, b, c, d, e, f, g, h]
    let (text, rest) ← quotedLines? false rest
    return (char :: text, rest)
  | '\\' :: letter :: rest =>
    match shortEscapes.lookup letter with
    | some char => do
      let (text, rest) ← quotedLines? false rest
      return (char :: text, rest)
    | none =>
      if endsLine (letter :: rest) then quotedLines? true rest else none
  | c :: rest =>
    if joining && (isSpace c || c = '\n') then quotedLines? true rest
    else do
      guard (c ≠ '\\' && (c = '\n' || isOrdinary c))
      let (text, rest) ← quotedLines? false rest
      return (c :: text, rest)

/-- A string of any sort. -/
def string? : Reader String := fun text => do
  let (text, rest) ← match text with
    | '"' :: '"' :: '"' :: rest => quotedLines? false (skipBreak rest)
    | '"' :: rest => quoted? rest
    | '\'' :: '\'' :: '\'' :: rest => literalLines? (skipBreak rest)
    | '\'' :: rest => literal? rest
    | _ => none
  return (String.ofList text, rest)

/-! ## Keys -/

/-- The names on the way to a table or an entry. -/
abbrev Key := List String

/-- Whether a character belongs to a bare name. -/
def isBare (c : Char) : Bool :=
  c.isAlphanum || c = '_' || c = '-'

/-- One name of a key. -/
def name? : Reader String
  | '"' :: rest => (quoted? rest).map fun (name, rest) => (String.ofList name, rest)
  | '\'' :: rest => (literal? rest).map fun (name, rest) => (String.ofList name, rest)
  | text =>
    let name := text.takeWhile isBare
    if name.isEmpty then none else some (String.ofList name, text.dropWhile isBare)

/-- A key and the space around it. The fuel bounds the number of names. -/
def keyUpTo? : Nat → Reader Key
  | 0, _ => none
  | fuel + 1, text => do
    let (name, rest) ← name? (skipSpace text)
    match skipSpace rest with
    | '.' :: rest => do
      let (names, rest) ← keyUpTo? fuel rest
      return (name :: names, rest)
    | rest => some ([name], rest)

/-- The most names in a key, and the most brackets around a value. -/
def depthLimit : Nat := 79

/-- A key of at most `depthLimit` names, and the space around it. -/
def key? : Reader Key :=
  keyUpTo? depthLimit

end Expunge.Toml
