import Expunge.Binary64.Basic
import Expunge.Settings.Tree
import Expunge.Text.Hex
import Expunge.Text.Split

/-!
# Single words of TOML

A value that is neither a string nor in brackets is one word: a truth value, an integer of 64 bits,
a float, or a date and time.
-/

namespace Expunge.Toml

/-! ## Numbers -/

/-- The digits of a numeral in which single underscores may stand between digits. -/
def ungroup? (isDigit : Char → Bool) (text : List Char) : Option (List Char) :=
  let groups := Text.splitAll '_' text
  let isGroup (group : List Char) : Bool := !group.isEmpty && group.all isDigit
  if groups.all isGroup then some groups.flatten else none

/-- The digits of a decimal numeral without a needless zero in front. -/
def wholeDigits? (text : List Char) : Option (List Char) := do
  let digits ← ungroup? Char.isDigit text
  guard (digits.length = 1 || digits.head? ≠ some '0')
  return digits

/-- The digits of a numeral in the base of the given size. -/
def readBase? (base : Nat) (text : List Char) : Option Nat := do
  let isDigit (c : Char) : Bool := match Text.hexDigit? c with
    | some value => value < base
    | none => false
  let digits ← ungroup? isDigit text
  return Text.ofBase base (← digits.mapM Text.hexDigit?)

/-- The integer that a word spells, in base ten with a sign or without one, or in another base. -/
def integer? : List Char → Option Int
  | '0' :: 'x' :: text => (readBase? 16 text).map fun n => (n : Int)
  | '0' :: 'o' :: text => (readBase? 8 text).map fun n => (n : Int)
  | '0' :: 'b' :: text => (readBase? 2 text).map fun n => (n : Int)
  | text => do
    let (negative, unsigned) := Text.readSign text
    return Text.signed negative (← Text.readNat? (← wholeDigits? unsigned))

/-- The exponent that follows the digits of a float. -/
def exponent? (text : List Char) : Option Int := do
  let (negative, unsigned) := Text.readSign text
  return Text.signed negative (← Text.readNat? (← ungroup? Char.isDigit unsigned))

/-- Whether a character belongs to the digits of a float. -/
def isFloatDigit (c : Char) : Bool :=
  c.isDigit || c = '_'

/-- The decimal that a word with a point or an exponent spells. -/
def decimal? (word : List Char) : Option Decimal := do
  let (negative, unsigned) := Text.readSign word
  let whole ← wholeDigits? (unsigned.takeWhile isFloatDigit)
  let (fraction, rest) ← match unsigned.dropWhile isFloatDigit with
    | '.' :: rest => do
      let fraction ← ungroup? Char.isDigit (rest.takeWhile isFloatDigit)
      some (fraction, rest.dropWhile isFloatDigit)
    | [] => none
    | rest => some ([], rest)
  let exponent ← match rest with
    | [] => some 0
    | mark :: rest => if mark = 'e' ∨ mark = 'E' then exponent? rest else none
  return Decimal.ofParts negative (← Text.readDigits? whole) (← Text.readDigits? fraction) exponent

/-- Whether a word is a float. A positive one too large to be finite is not. -/
def isFloat (word : List Char) : Bool :=
  let (_, unsigned) := Text.readSign word
  unsigned = ['i', 'n', 'f'] || unsigned = ['n', 'a', 'n'] || match decimal? word with
    | some d => d.negative || (Binary64.ofDecimal d).isFinite
    | none => false

/-! ## Dates and times -/

/-- A number of so many digits within two bounds, at the start of a text. -/
def field? (width low high : Nat) (text : List Char) : Option (Nat × List Char) := do
  guard (width ≤ text.length)
  let value ← Text.readNat? (text.take width)
  guard (low ≤ value && value ≤ high)
  return (value, text.drop width)

/-- The text after one of the given marks. -/
def afterMark? (marks : List Char) : List Char → Option (List Char)
  | [] => none
  | c :: rest => if marks.contains c then some rest else none

/-- The number of days of a month. -/
def daysIn (year month : Nat) : Nat :=
  if month = 2 then
    if year % 4 = 0 ∧ (year % 100 ≠ 0 ∨ year % 400 = 0) then 29 else 28
  else if month = 4 ∨ month = 6 ∨ month = 9 ∨ month = 11 then 30
  else 31

/-- The text after a date. -/
def afterDate? (text : List Char) : Option (List Char) := do
  let (year, rest) ← field? 4 0 9999 text
  let (month, rest) ← field? 2 1 12 (← afterMark? ['-'] rest)
  let (_, rest) ← field? 2 1 (daysIn year month) (← afterMark? ['-'] rest)
  return rest

/-- The text after a time of day, whose last minute may have a leap second. -/
def afterTime? (text : List Char) : Option (List Char) := do
  let (_, rest) ← field? 2 0 23 text
  let (_, rest) ← field? 2 0 59 (← afterMark? [':'] rest)
  let (_, rest) ← field? 2 0 60 (← afterMark? [':'] rest)
  match rest with
  | '.' :: rest =>
    guard !(rest.takeWhile Char.isDigit).isEmpty
    return rest.dropWhile Char.isDigit
  | rest => return rest

/-- Whether a text is empty or the offset of a time zone. -/
def isOffset (text : List Char) : Bool :=
  text = [] || text = ['Z'] || text = ['z'] || Option.isSome do
    let (_, rest) ← field? 2 0 23 (← afterMark? ['+', '-'] text)
    let (_, rest) ← field? 2 0 59 (← afterMark? [':'] rest)
    guard (rest = [])

/-- Whether a word is a date, a time of day, or both. -/
def isMoment (word : List Char) : Bool :=
  match afterDate? word with
  | some [] => true
  | some rest => Option.isSome do
    let rest ← afterTime? (← afterMark? ['T', 't', ' '] rest)
    guard (isOffset rest)
  | none => afterTime? word = some []

/-! ## Words -/

/-- The setting that a word spells. A date or time is a table of its own kind, which no setting asks
for. -/
def ofWord? (word : List Char) : Option Setting :=
  if word = ['t', 'r', 'u', 'e'] then some (.truth true)
  else if word = ['f', 'a', 'l', 's', 'e'] then some (.truth false)
  else if let some value := integer? word then
    (Text.int64? value).map fun _ => .integer value
  else if isFloat word then some .float
  else if isMoment word then some (.table [("moment", .text (String.ofList word))])
  else none

/-- Whether a character belongs to a word. -/
def isWordChar (c : Char) : Bool :=
  c.isAlphanum || c = '_' || c = '+' || c = '-' || c = '.' || c = ':'

/-- The longest word at the start of a text, and the rest. -/
def spanWord (text : List Char) : List Char × List Char :=
  (text.takeWhile isWordChar, text.dropWhile isWordChar)

/-- The word at the start of a text. A date may be divided from its time by a space. -/
def word? (text : List Char) : Option (Setting × List Char) := do
  let (word, rest) := spanWord text
  match rest with
  | ' ' :: c :: more =>
    if c.isDigit && afterDate? word = some [] then
      let (time, rest) := spanWord (c :: more)
      return (← ofWord? (word ++ ' ' :: time), rest)
    else return (← ofWord? word, rest)
  | rest => return (← ofWord? word, rest)

end Expunge.Toml
