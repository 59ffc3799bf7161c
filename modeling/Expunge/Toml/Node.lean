import Expunge.Settings.Tree
import Expunge.Toml.Strings

/-!
# Tables under construction

While a TOML text is read, each table remembers how it came about, because that decides what may
still be added to it: a table made on the way to another one may be given a header of its own once,
a table made by a key of several names may get further such keys, and nothing else may be defined
again.
-/

namespace Expunge.Toml

/-- How a table came about. -/
inductive Origin
  /-- On the way to the table of a header. -/
  | implied
  /-- By a key of several names. -/
  | dotted
  /-- By a header of its own. -/
  | header
deriving DecidableEq, Repr

/-- What a name stands for in a table. -/
inductive Node
  | value (setting : Setting)
  | table (origin : Origin) (entries : List (String × Node))
  /-- A list of tables, of which only the last can still change. -/
  | tables (earlier : List Setting) (last : List (String × Node))

/-- The entries of a table, in the order in which they came. -/
abbrev Entries := List (String × Node)

mutual

/-- A finished node as a setting. -/
def Node.toSetting : Node → Setting
  | .value setting => setting
  | .table _ entries => .table (toSettings entries)
  | .tables earlier last => .list (earlier ++ [.table (toSettings last)])

/-- Finished entries as settings. -/
def toSettings : List (String × Node) → List (String × Setting)
  | [] => []
  | (name, node) :: rest => (name, node.toSetting) :: toSettings rest

end

namespace Entries

/-- Replaces the node of a name, or adds it at the end. -/
def put (name : String) (node : Node) : Entries → Entries
  | [] => [(name, node)]
  | entry :: rest => if entry.1 = name then (name, node) :: rest else entry :: put name node rest

/-- Changes the table that a key leads to. Tables missing on the way are made, of the given origin;
one that has a header of its own is not entered by a key of several names. The change is told the
origin of its table. -/
def change? (made : Origin) (change : Origin → Entries → Option Entries) (origin : Origin)
    (entries : Entries) : Key → Option Entries
  | [] => change origin entries
  | name :: key =>
    match entries.lookup name with
    | none => do return put name (.table made (← change? made change made [] key)) entries
    | some (.value _) => none
    | some (.table found inner) =>
      if made = .dotted ∧ found = .header then none
      else do return put name (.table found (← change? made change found inner key)) entries
    | some (.tables earlier last) => do
      return put name (.tables earlier (← change? made change .header last key)) entries

/-- Gives a value to a key that has none. The table that its last name goes into has to be the one
that the key starts from, or one made by such keys. -/
def assign? (key : Key) (value : Setting) (entries : Entries) : Option Entries := do
  let name ← key.getLast?
  let way := key.dropLast
  change? .dotted (fun origin entries => do
    guard (way.isEmpty || origin = .dotted)
    guard (entries.lookup name).isNone
    return put name (.value value) entries) .header entries way

/-- Opens the table of a header. -/
def openTable? (key : Key) (entries : Entries) : Option Entries := do
  let name ← key.getLast?
  change? .implied (fun _ entries =>
    match entries.lookup name with
    | none => some (put name (.table .header []) entries)
    | some (.table .implied inner) => some (put name (.table .header inner) entries)
    | some _ => none) .header entries key.dropLast

/-- Opens a further table of the list of a header. -/
def openElement? (key : Key) (entries : Entries) : Option Entries := do
  let name ← key.getLast?
  change? .implied (fun _ entries =>
    match entries.lookup name with
    | none => some (put name (.tables [] []) entries)
    | some (.tables earlier last) =>
      some (put name (.tables (earlier ++ [.table (toSettings last)]) []) entries)
    | some _ => none) .header entries key.dropLast

end Entries

end Expunge.Toml
