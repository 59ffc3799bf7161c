import Expunge.Json.Document
import Expunge.Json.Writer

/-!
# Reading values off JSON trees

Readers of single values, lists, records and variants. They take the number of levels of nesting
that they may still enter, which starts at `depthLimit`; a value that is passed over may nest deeper
and may hold numbers and strings that could not be read.
-/

namespace Expunge.Json

/-- The number of levels of nesting that a reader enters. -/
def depthLimit : Nat := 127

/-- The truth value of a tree. -/
def bool? : Json → Option Bool
  | .bool value => some value
  | _ => none

/-- The text of a tree. -/
def text? : Json → Option String
  | .string text => text
  | _ => none

/-- The natural number below `2 ^ 64` of a tree. -/
def nat? : Json → Option Nat
  | .number n => do
    let i ← n.toInt?
    guard (!n.negative && i.toNat < 2 ^ 64)
    return i.toNat
  | _ => none

/-- The items of an array. -/
def items? (room : Nat) : Json → Option (List Json)
  | .array items => if 0 < room then some items else none
  | _ => none

/-- The values of an array. -/
def list? {α : Type} (room : Nat) (item? : Json → Option α) (value : Json) : Option (List α) := do
  (← value.items? room).mapM item?

/-- The texts of an array. -/
def texts? (room : Nat) (value : Json) : Option (List String) :=
  value.list? room text?

/-- The fields of a record, found by their names. -/
abbrev Fields := String → Option Json

/-- The members of an object whose names are readable, those that are asked for appearing once at
most. -/
def members? (names : List String) (members : List (Option String × Json)) :
    Option (List (String × Json)) := do
  let members ← members.mapM fun member => member.1.map fun name => (name, member.2)
  guard (names.all fun name => (members.map (·.1)).count name ≤ 1)
  return members

/-- The fields of a record with the given names. A record is an object, where other members are
passed over, or an array of the fields in the order of their names, where fields at the end may be
missing. -/
def fields? (room : Nat) (names : List String) : Json → Option Fields
  | .object members => do
    guard (0 < room)
    let members ← members? names members
    return fun name => members.lookup name
  | .array items => do
    guard (0 < room && items.length ≤ names.length)
    return fun name => (names.zip items).lookup name
  | _ => none

/-- A field that may be missing, in which case it has a default value. -/
def orDefault {α : Type} (default : α) (value? : Json → Option α) : Option Json → Option α
  | none => some default
  | some value => value? value

/-- A field that may be missing or `null`. -/
def orNull {α : Type} (value? : Json → Option α) : Option Json → Option (Option α)
  | none => some none
  | some .null => some none
  | some value => (value? value).map some

/-- How a tree is read: straight off a text, or off a value that was held back until its meaning
was known. Values held back accept a few more spellings of variants. -/
inductive Reading
  | direct
  | heldBack
deriving DecidableEq, Repr

/-- The variant of a tree: its name, or an object with its name and no content. -/
def variant? {α : Type} (reading : Reading) (room : Nat) (variants : List (String × α)) :
    Json → Option α
  | .string (some name) => variants.lookup name
  | .object [(some name, content)] =>
    let noContent := match content with
      | .null => true
      | .object [] => reading = .heldBack
      | _ => false
    if 0 < room && noContent then variants.lookup name else none
  | _ => none

mutual

/-- Whether a whole tree can be read, so that it can be held back. -/
def isReadable (room : Nat) : Json → Bool
  | .malformed => false
  | .null => true
  | .bool _ => true
  | .number n => n.toBinary64?.isSome
  | .string text => text.isSome
  | .array items => match room with
    | 0 => false
    | room + 1 => areReadable room items
  | .object members => match room with
    | 0 => false
    | room + 1 => membersReadable room members

/-- Whether all trees can be read. -/
def areReadable (room : Nat) : List Json → Bool
  | [] => true
  | item :: items => isReadable room item && areReadable room items

/-- Whether all names and values of members can be read. -/
def membersReadable (room : Nat) : List (Option String × Json) → Bool
  | [] => true
  | (name, value) :: members => name.isSome && isReadable room value && membersReadable room members

end

end Expunge.Json
