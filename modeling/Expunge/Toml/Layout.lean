import Expunge.Text.Quoted

/-!
# Layout of TOML texts

What stands between the parts of a TOML text: spaces within a line, the end of a line with the
comment before it, and gaps that may go over several lines.
-/

namespace Expunge.Toml

open Text (isOrdinary)

/-- Whether a character is space within a line. -/
def isSpace (c : Char) : Bool :=
  c = ' ' || c = '\t'

/-- A text without the space at its start. -/
def skipSpace (text : List Char) : List Char :=
  text.dropWhile isSpace

/-- A text without the comment at its start, if one starts there. -/
def skipComment : List Char → List Char
  | '#' :: rest => rest.dropWhile isOrdinary
  | text => text

/-- The text after a line break, which is a line feed with or without a carriage return before
it. -/
def afterBreak? : List Char → Option (List Char)
  | '\n' :: rest => some rest
  | '\r' :: '\n' :: rest => some rest
  | _ => none

/-- The text after a line of which only space and a comment are left. The last line needs no
break. -/
def afterLine? (text : List Char) : Option (List Char) :=
  match skipComment (skipSpace text) with
  | [] => some []
  | rest => afterBreak? rest

/-- A text without the spaces, line breaks and comments at its start. A comment has to end in a line
break; `inComment` says whether one has begun. -/
def skipGap (inComment : Bool) : List Char → List Char
  | [] => []
  | '\n' :: rest => skipGap false rest
  | '\r' :: '\n' :: rest => skipGap false rest
  | c :: rest =>
    if inComment then
      if isOrdinary c then skipGap true rest else c :: rest
    else if isSpace c then skipGap false rest
    else if c = '#' then skipGap true rest
    else c :: rest

end Expunge.Toml
