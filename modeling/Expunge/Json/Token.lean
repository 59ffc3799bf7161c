import Expunge.Json.Basic
import Expunge.Text.Hex
import Expunge.Text.Utf8

/-!
# JSON tokens

A text is cut into punctuation, strings and words, a word being a run of characters of none of the
other sorts. What is no token of JSON becomes the token `malformed`, so that cutting never fails.
-/

namespace Expunge.Json

open Text (Symbol)

/-- A token of a document. -/
inductive Token
  | openArray
  | closeArray
  | openObject
  | closeObject
  | colon
  | comma
  | string (text : Option String)
  /-- A number, a truth value or `null`. -/
  | word (value : Json)
  | malformed
deriving Repr

/-! ## Words -/

/-- The part of a numeral after its integer: the digits after a point, and the rest. -/
def readFraction? (text : List Char) : Option (List Digit × List Char) :=
  match text with
  | '.' :: rest => do
    let digits := rest.takeWhile Char.isDigit
    guard !digits.isEmpty
    return (← Text.readDigits? digits, rest.dropWhile Char.isDigit)
  | rest => some ([], rest)

/-- The exponent that ends a numeral, if there is one. -/
def readExponent? : List Char → Option (Option Int)
  | [] => some none
  | mark :: rest => if mark = 'e' ∨ mark = 'E' then (Text.readInt? rest).map some else none

/-- The natural number that digits without a needless zero in front spell. -/
def readWhole? (text : List Char) : Option Nat :=
  match text with
  | '0' :: _ :: _ => none
  | digits => Text.readNat? digits

/-- The numeral that a word spells. -/
def readNumeral? (word : List Char) : Option Numeral := do
  let (negative, unsigned) := match word with
    | '-' :: rest => (true, rest)
    | rest => (false, rest)
  let whole ← readWhole? (unsigned.takeWhile Char.isDigit)
  let (fraction, rest) ← readFraction? (unsigned.dropWhile Char.isDigit)
  return ⟨negative, whole, fraction, ← readExponent? rest⟩

/-- The token that a word spells. -/
def Token.ofWord (word : List Char) : Token :=
  if word = ['n', 'u', 'l', 'l'] then .word .null
  else if word = ['t', 'r', 'u', 'e'] then .word (.bool true)
  else if word = ['f', 'a', 'l', 's', 'e'] then .word (.bool false)
  else match readNumeral? word with
    | some n => .word (.number n)
    | none => .malformed

/-! ## Strings -/

/-- A piece of a string: a symbol of the text, or a 16-bit unit given by an escape. -/
inductive Piece
  | symbol (symbol : Symbol)
  | unit (unit : Nat)

/-- The value of four hexadecimal digits. -/
def hexUnit? (digits : List Symbol) : Option Nat := do
  let digits ← digits.mapM fun symbol => symbol.bind Text.hexDigit?
  return Text.ofBase 16 digits

/-- The escapes of one letter, with the characters they stand for. -/
def shortEscapes : List (Char × Char) :=
  [('"', '"'), ('\\', '\\'), ('/', '/'), ('b', '\x08'), ('f', '\x0c'), ('n', '\n'), ('r', '\r'),
   ('t', '\t')]

/-- Whether a symbol may not stand in a string as it is. -/
def isControl : Symbol → Bool
  | some c => c.toNat < 0x20
  | none => false

/-- The pieces of the text between two quotes; none if an escape is not one of JSON or a control
character stands there as it is. -/
def pieces? : List Symbol → Option (List Piece)
  | [] => some []
  | some '\\' :: some 'u' :: a :: b :: c :: d :: rest => do
    let unit ← hexUnit? [a, b, c, d]
    return .unit unit :: (← pieces? rest)
  | some '\\' :: letter :: rest => do
    let c ← letter.bind fun c => shortEscapes.lookup c
    return .symbol (some c) :: (← pieces? rest)
  | symbol :: rest =>
    if symbol = some '\\' ∨ isControl symbol then none
    else (pieces? rest).map (.symbol symbol :: ·)

/-- Whether a unit is the first half of a surrogate pair. -/
def isHighSurrogate (unit : Nat) : Bool :=
  0xd800 ≤ unit && unit < 0xdc00

/-- Whether a unit is the second half of a surrogate pair. -/
def isLowSurrogate (unit : Nat) : Bool :=
  0xdc00 ≤ unit && unit < 0xe000

/-- The character of a unit that is no half of a surrogate pair. -/
def unitSymbol (unit : Nat) : Symbol :=
  if isHighSurrogate unit || isLowSurrogate unit then none else some (Char.ofNat unit)

/-- Joins the halves of surrogate pairs; a half without its other half is no character. -/
def joinPieces : List Piece → List Symbol
  | [] => []
  | .symbol symbol :: rest => symbol :: joinPieces rest
  | .unit high :: .unit low :: rest =>
    if isHighSurrogate high && isLowSurrogate low then
      some (Char.ofNat (0x10000 + (high - 0xd800) * 0x400 + (low - 0xdc00))) :: joinPieces rest
    else unitSymbol high :: joinPieces (.unit low :: rest)
  | .unit unit :: rest => unitSymbol unit :: joinPieces rest

/-- The token of the text between two quotes. -/
def Token.ofQuoted (content : List Symbol) : Token :=
  match pieces? content with
  | some pieces => .string (Text.ofSymbols? (joinPieces pieces))
  | none => .malformed

/-! ## Cutting a text -/

/-- Whether a character is white space between tokens. -/
def isSpace (c : Char) : Bool :=
  c = ' ' || c = '\t' || c = '\n' || c = '\r'

/-- The token of a punctuation character. -/
def punctuation? : Char → Option Token
  | '[' => some .openArray
  | ']' => some .closeArray
  | '\x7b' => some .openObject
  | '\x7d' => some .closeObject
  | ':' => some .colon
  | ',' => some .comma
  | _ => none

/-- Whether a symbol belongs to a word. -/
def isWordSymbol : Symbol → Bool
  | some c => !(isSpace c || (punctuation? c).isSome || c = '"')
  | none => false

/-- Where a cut stands: between tokens, in a word, in a string, or after the backslash that starts
an escape. The characters of the word or string so far are kept in reverse. -/
inductive Place
  | between
  | word (reversed : List Char)
  | quoted (reversed : List Symbol)
  | escaped (reversed : List Symbol)

/-- What a symbol means between tokens: the token that it is, and the place that it leads to. -/
def enter : Symbol → Option Token × Place
  | none => (some .malformed, .between)
  | some c =>
    if isSpace c then (none, .between)
    else if c = '"' then (none, .quoted [])
    else match punctuation? c with
      | some token => (some token, .between)
      | none => (none, .word [c])

/-- The tokens of a text, from a place in it. -/
def tokensFrom : Place → List Symbol → List Token
  | .between, [] => []
  | .word reversed, [] => [.ofWord reversed.reverse]
  | .quoted _, [] => [.malformed]
  | .escaped _, [] => [.malformed]
  | .between, symbol :: rest => (enter symbol).1.toList ++ tokensFrom (enter symbol).2 rest
  | .word reversed, symbol :: rest =>
    match symbol, isWordSymbol symbol with
    | some c, true => tokensFrom (.word (c :: reversed)) rest
    | _, _ =>
      .ofWord reversed.reverse :: ((enter symbol).1.toList ++ tokensFrom (enter symbol).2 rest)
  | .quoted reversed, symbol :: rest =>
    if symbol = some '"' then .ofQuoted reversed.reverse :: tokensFrom .between rest
    else if symbol = some '\\' then tokensFrom (.escaped reversed) rest
    else tokensFrom (.quoted (symbol :: reversed)) rest
  | .escaped reversed, symbol :: rest =>
    tokensFrom (.quoted (symbol :: some '\\' :: reversed)) rest

/-- The tokens of a text. -/
def tokens (text : List Symbol) : List Token :=
  tokensFrom .between text

end Expunge.Json
