import Expunge.Json.Basic

/-!
# Writing JSON

Trees are written without white space, or over several lines with an indentation of two spaces.
In strings only the quote, the backslash and the control characters below the space are escaped;
so no text that is written holds a line feed.
-/

namespace Expunge

/-- A numeral as text. An exponent always has a sign. -/
def Numeral.toText (n : Numeral) : List Char :=
  let sign := if n.negative then ['-'] else []
  let fraction := if n.fraction.isEmpty then [] else '.' :: Text.ofDigitList n.fraction
  let exponent := match n.exponent with
    | none => []
    | some e => 'e' :: (if e < 0 then '-' else '+') :: Text.ofNat e.natAbs
  sign ++ Text.ofNat n.whole ++ fraction ++ exponent

namespace Json

/-- The lower-case hexadecimal digit of a number below sixteen. -/
def hexChar (n : Nat) : Char :=
  if n < 10 then Char.ofNat ('0'.toNat + n) else Char.ofNat ('a'.toNat + (n - 10))

/-- A character as it stands in a string. -/
def escapeChar (c : Char) : List Char :=
  if c = '"' then ['\\', '"']
  else if c = '\\' then ['\\', '\\']
  else if c = '\x08' then ['\\', 'b']
  else if c = '\t' then ['\\', 't']
  else if c = '\n' then ['\\', 'n']
  else if c = '\x0c' then ['\\', 'f']
  else if c = '\r' then ['\\', 'r']
  else if c.toNat < 0x20 then ['\\', 'u', '0', '0', hexChar (c.toNat / 16), hexChar (c.toNat % 16)]
  else [c]

/-- A string with its quotes. A string that stands for no text is written as half of a surrogate
pair, which stands for none either. -/
def quote : Option String → List Char
  | some text => '"' :: (text.toList.flatMap escapeChar ++ ['"'])
  | none => ['"', '\\', 'u', 'd', '8', '0', '0', '"']

/-- The text of a truth value. -/
def boolText : Bool → List Char
  | true => ['t', 'r', 'u', 'e']
  | false => ['f', 'a', 'l', 's', 'e']

mutual

/-- A tree as text without white space. -/
def writeChars : Json → List Char
  | .malformed => []
  | .null => ['n', 'u', 'l', 'l']
  | .bool value => boolText value
  | .number value => value.toText
  | .string text => quote text
  | .array items => '[' :: (writeItems items ++ [']'])
  | .object members => '\x7b' :: (writeMembers members ++ ['\x7d'])

/-- The items of an array with commas between them. -/
def writeItems : List Json → List Char
  | [] => []
  | [item] => writeChars item
  | item :: items => writeChars item ++ ',' :: writeItems items

/-- The members of an object with commas between them. -/
def writeMembers : List (Option String × Json) → List Char
  | [] => []
  | [(name, value)] => quote name ++ ':' :: writeChars value
  | (name, value) :: members =>
    quote name ++ ':' :: (writeChars value ++ ',' :: writeMembers members)

end

/-- A tree as text without white space. -/
def write (value : Json) : String :=
  String.ofList value.writeChars

/-- The start of a line at the given depth. -/
def newLine (depth : Nat) : List Char :=
  '\n' :: List.replicate (2 * depth) ' '

mutual

/-- A tree as text over several lines, from a given depth on. -/
def writeIndented (depth : Nat) : Json → List Char
  | .array (item :: items) =>
    '[' :: (indentedItems (depth + 1) (item :: items) ++ newLine depth ++ [']'])
  | .object (member :: members) =>
    '\x7b' :: (indentedMembers (depth + 1) (member :: members) ++ newLine depth ++ ['\x7d'])
  | value => value.writeChars

/-- The items of an array on a line each. -/
def indentedItems (depth : Nat) : List Json → List Char
  | [] => []
  | [item] => newLine depth ++ writeIndented depth item
  | item :: items => newLine depth ++ writeIndented depth item ++ ',' :: indentedItems depth items

/-- The members of an object on a line each. -/
def indentedMembers (depth : Nat) : List (Option String × Json) → List Char
  | [] => []
  | [(name, value)] => newLine depth ++ quote name ++ ':' :: ' ' :: writeIndented depth value
  | (name, value) :: members =>
    newLine depth ++ quote name ++ ':' :: ' ' :: (writeIndented depth value ++ ',' ::
      indentedMembers depth members)

end

/-- A tree as text over several lines. -/
def writePretty (value : Json) : String :=
  String.ofList (writeIndented 0 value)

end Json

end Expunge
