/-!
# Readers

A reader takes what it can use off the start of a text and hands back the rest. The module has the
readers that other ones are put together from: an expected start, and sequences between brackets.
-/

namespace Expunge.Text

/-- A reader of some of a text: what it read, and the rest. -/
abbrev Reader (α : Type) := List Char → Option (α × List Char)

/-- The rest of a text that starts with the given characters. -/
def after? : List Char → List Char → Option (List Char)
  | [], text => some text
  | _ :: _, [] => none
  | e :: expected, c :: text => if e = c then after? expected text else none

/-- The parts of a sequence up to its closing bracket, with commas between them. The fuel bounds the
number of parts. -/
def parts? {α : Type} (part? : Reader α) (close : Char) : Nat → Reader (List α)
  | 0, _ => none
  | fuel + 1, text => do
    let (first, rest) ← part? text
    match rest with
    | [] => none
    | c :: rest =>
      if c = close then some ([first], rest)
      else if c = ',' then do
        let (others, rest) ← parts? part? close fuel rest
        return (first :: others, rest)
      else none

/-- As `parts?`, where there may be no parts at all and the last one may be followed by a comma.
Before each part and before the closing bracket a text is shortened by `skip`. -/
def looseParts? {α : Type} (skip : List Char → List Char) (part? : Reader α) (close : Char) :
    Nat → Reader (List α)
  | 0, _ => none
  | fuel + 1, text =>
    let text := skip text
    if text.head? = some close then some ([], text.tail)
    else do
      let (first, rest) ← part? text
      match rest with
      | [] => none
      | c :: rest =>
        if c = close then some ([first], rest)
        else if c = ',' then do
          let (others, rest) ← looseParts? skip part? close fuel rest
          return (first :: others, rest)
        else none

end Expunge.Text
