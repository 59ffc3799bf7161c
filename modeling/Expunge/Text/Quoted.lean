import Expunge.Text.Hex
import Expunge.Text.Reader

/-!
# Quoted text

Text between double quotes, in which a backslash starts an escape: one letter that stands for a
character, or the code point of a character in four or eight hexadecimal digits.
-/

namespace Expunge.Text

/-- Whether a character may stand in quoted text and in comments as it is: every one but the control
characters of ASCII, of which only the tab may. -/
def isOrdinary (c : Char) : Bool :=
  c = '\t' || (0x20 ≤ c.toNat && c ≠ '\x7f')

/-- The escapes of one letter, with the characters they stand for. -/
def shortEscapes : List (Char × Char) :=
  [('"', '"'), ('\\', '\\'), ('b', '\x08'), ('f', '\x0c'), ('n', '\n'), ('r', '\r'), ('t', '\t')]

/-- A quoted text, from after its opening quote. -/
def quoted? : Reader (List Char)
  | [] => none
  | '"' :: rest => some ([], rest)
  | '\\' :: 'u' :: a :: b :: c :: d :: rest => do
    let char ← hexChar? [a, b, c, d]
    let (text, rest) ← quoted? rest
    return (char :: text, rest)
  | '\\' :: 'U' :: a :: b :: c :: d :: e :: f :: g :: h :: rest => do
    let char ← hexChar? [a, b, c, d, e, f, g, h]
    let (text, rest) ← quoted? rest
    return (char :: text, rest)
  | '\\' :: letter :: rest => do
    let char ← shortEscapes.lookup letter
    let (text, rest) ← quoted? rest
    return (char :: text, rest)
  | c :: rest => do
    guard (c ≠ '\\' && isOrdinary c)
    let (text, rest) ← quoted? rest
    return (c :: text, rest)

end Expunge.Text
