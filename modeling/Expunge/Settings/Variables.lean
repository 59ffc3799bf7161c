import Expunge.Settings.Tree
import Expunge.Text.Blank
import Expunge.Text.Decimal
import Expunge.Text.Quoted
import Expunge.Text.Split

/-!
# Settings in environment variables

A variable whose name starts with `ERASURE__` sets the setting that the rest of its name leads to,
segment by segment. Its value is a truth value, a number, a quoted text, a quoted character, a list
or a table; everything else is a plain text, which loses the white space around it if it has no
brackets and commas.
-/

namespace Expunge.Settings.Variables

open Text (Reader after? looseParts? quoted?)

/-! ## Values -/

/-- Whether a character is white space between the parts of a value. -/
def isSpace (c : Char) : Bool :=
  c = ' ' || c = '\t' || c = '\n' || c = '\x0c' || c = '\r'

/-- A text without the space at its start. -/
def skipSpace (text : List Char) : List Char :=
  text.dropWhile isSpace

/-- Whether a character belongs to a plain value. -/
def isPlain (c : Char) : Bool :=
  !(c = ',' || c = '\x7b' || c = '\x7d' || c = '[' || c = ']')

/-- Whether a character belongs to a name. -/
def isNameChar (c : Char) : Bool :=
  c.isAlphanum || c = '_' || c = '-'

/-- The value of a plain run of characters: a float if it has a point and reads as one, an integer
if it reads as one of 64 bits, otherwise a text. -/
def ofPlain (run : List Char) : Setting :=
  let run := Text.trim run
  if run.contains '.' && (Decimal.read? run).isSome then .float
  else match Text.readInt? run with
    | some value =>
      let unsigned := run.head? ≠ some '-' && value < 2 ^ 64
      let signed := -2 ^ 63 ≤ value && value < 2 ^ 63
      if unsigned || signed then .integer value else .text (String.ofList run)
    | none => .text (String.ofList run)

/-- The characters at the start of a text that fit into so many bytes. -/
def takeBytes : Nat → List Char → List Char
  | _, [] => []
  | bytes, c :: rest =>
    if c.utf8Size ≤ bytes then c :: takeBytes (bytes - c.utf8Size) rest else []

/-- A quoted text, from after its opening quote. If it has escapes, what stands before the first of
them counts for as many bytes as it has characters. -/
def quotedValue? : Reader (List Char) := fun text => do
  let (inside, rest) ← quoted? text
  let plain := text.takeWhile fun c => c ≠ '"' && c ≠ '\\'
  if (text.drop plain.length).head? = some '\\' then
    return (takeBytes plain.length plain ++ inside.drop plain.length, rest)
  else return (inside, rest)

/-- The name of an entry of a table. -/
def name? : Reader String
  | '"' :: rest => (quotedValue? rest).map fun (name, rest) => (String.ofList name, rest)
  | text =>
    let name := text.takeWhile isNameChar
    if name.isEmpty then none else some (String.ofList name, text.dropWhile isNameChar)

/-- A value and the space around it. The fuel bounds the nesting. -/
def value? : Nat → Reader Setting
  | 0, _ => none
  | fuel + 1, text =>
    let entry? : Reader (String × Setting) := fun text => do
      let (name, rest) ← name? (skipSpace text)
      let rest ← after? ['='] (skipSpace rest)
      let (value, rest) ← value? fuel rest
      return ((name, value), rest)
    let inner? : Reader Setting := fun text =>
      if let some rest := after? ['t', 'r', 'u', 'e'] text then some (.truth true, rest)
      else if let some rest := after? ['f', 'a', 'l', 's', 'e'] text then some (.truth false, rest)
      else match text with
        | '\x7b' :: rest => do
          let (entries, rest) ← looseParts? id entry? '\x7d' (rest.length + 1) rest
          return (.table (entries.foldl (fun table entry => Setting.put entry.1 entry.2 table) []),
            rest)
        | '[' :: rest => do
          let (items, rest) ← looseParts? id (value? fuel) ']' (rest.length + 1) rest
          return (.list items, rest)
        | '"' :: rest => do
          let (text, rest) ← quotedValue? rest
          return (.text (String.ofList text), rest)
        | '\'' :: c :: '\'' :: rest => some (.character c, rest)
        | '\'' :: _ => none
        | text => some (ofPlain (text.takeWhile isPlain), text.dropWhile isPlain)
    (inner? (skipSpace text)).map fun (value, rest) => (value, skipSpace rest)

/-- The setting that the value of a variable spells. A value that cannot be read to its end is a
text as it stands. -/
def ofValue (value : String) : Setting :=
  match value? (value.length + 1) value.toList with
  | some (setting, []) => setting
  | _ => .text value

/-! ## Names -/

/-- How the names of variables that are settings start, in any letter case. -/
def namespaceMark : List Char := "erasure__".toList

/-- A name with points in place of its double underscores. -/
def pointed : List Char → List Char
  | '_' :: '_' :: rest => '.' :: pointed rest
  | c :: rest => c :: pointed rest
  | [] => []

/-- The segments of the setting that a variable names, if it names one. Segments are separated by
two underscores or a point, and none of them may be empty. -/
def segments? (name : String) : Option (List String) := do
  let rest ← after? namespaceMark ((Text.trim name.toList).map Char.toLower)
  let segments := Text.splitAll '.' (Text.trim (pointed rest))
  guard (segments.all (!·.isEmpty))
  return segments.map String.ofList

/-- The tree in which segments lead to a setting. -/
def nest (segments : List String) (setting : Setting) : Setting :=
  segments.foldr (fun segment tree => .table [(segment, tree)]) setting

/-- The tree of the settings in variables; of two variables for one setting the later one counts. -/
def tree (vars : List (String × String)) : Setting :=
  vars.foldl (fun tree (name, value) =>
    match segments? name with
    | some segments => tree.merge (nest segments (ofValue value))
    | none => tree) (.table [])

end Expunge.Settings.Variables
