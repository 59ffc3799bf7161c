import Expunge.Text.Digits

/-!
# Trees of settings

Settings from several places are trees of tables. A later tree overrides an earlier one table by
table: where both have a table the tables are merged, elsewhere the later setting counts. In a tree
that comes from a file a table may be a wrapper, which stands for one of its entries.
-/

namespace Expunge

/-- A setting: a single value, a list, or a table of settings by name. -/
inductive Setting
  | text (value : String)
  | character (value : Char)
  | truth (value : Bool)
  | integer (value : Int)
  /-- A float; no setting asks for one, so its value does not matter. -/
  | float
  | list (items : List Setting)
  | table (entries : List (String × Setting))
deriving Repr

namespace Setting

/-- Replaces the value of a name, or adds the name at the end. -/
def put (name : String) (value : Setting) : List (String × Setting) → List (String × Setting)
  | [] => [(name, value)]
  | entry :: rest =>
    if entry.1 = name then (name, value) :: rest else entry :: put name value rest

mutual

/-- A setting overridden by a later one. -/
def merge (base : Setting) : Setting → Setting
  | .table later =>
    match base with
    | .table entries => .table (mergeEntries entries later)
    | _ => .table later
  | later => later

/-- The entries of a table overridden by those of a later one. -/
def mergeEntries (base : List (String × Setting)) :
    List (String × Setting) → List (String × Setting)
  | [] => base
  | (name, later) :: rest =>
    let value := match base.lookup name with
      | some earlier => merge earlier later
      | none => later
    mergeEntries (put name value base) rest

end

/-! ## Wrappers -/

/-- The name under which a table that is a wrapper holds the setting that it stands for. -/
def wrappedName : String := "___figment_value_value"

/-- The name under which a wrapper would hold its tag. -/
def tagName : String := "___figment_value_id"

mutual

/-- A setting in which every wrapper is replaced by what it stands for, its other entries being
passed over. There are no tags, so a table that has one stands for nothing. -/
def unwrap? : Setting → Option Setting
  | .list items => do return .list (← unwrapItems? items)
  | .table entries => do
    guard (entries.lookup tagName).isNone
    let entries ← unwrapEntries? entries
    return (entries.lookup wrappedName).getD (.table entries)
  | setting => some setting

/-- Items in which every wrapper is replaced. -/
def unwrapItems? : List Setting → Option (List Setting)
  | [] => some []
  | item :: rest => do return (← unwrap? item) :: (← unwrapItems? rest)

/-- Entries in which every wrapper is replaced. -/
def unwrapEntries? : List (String × Setting) → Option (List (String × Setting))
  | [] => some []
  | (name, setting) :: rest => do return (name, ← unwrap? setting) :: (← unwrapEntries? rest)

end

/-- A tree in which every wrapper is replaced. The tree as a whole is none. -/
def unwrapParts? : Setting → Option Setting
  | .table entries => do return .table (← unwrapEntries? entries)
  | setting => some setting

/-! ## Reading -/

/-- The text of a setting. -/
def text? : Setting → Option String
  | .text value => some value
  | .character value => some (String.singleton value)
  | _ => none

/-- The natural number below `2 ^ 64` of a setting. -/
def nat? : Setting → Option Nat
  | .integer value => if 0 ≤ value ∧ value < 2 ^ 64 then some value.toNat else none
  | _ => none

/-- The variant that a setting names. -/
def variant? {α : Type} (variants : List (String × α)) : Setting → Option α
  | .text name => variants.lookup name
  | _ => none

/-- The fields of a record with the given names: the entries of a table, or the items of a list in
the order of the names. Other entries and items are passed over. -/
def fields? (names : List String) : Setting → Option (String → Option Setting)
  | .table entries => some fun name => entries.lookup name
  | .list items => some fun name => (names.zip items).lookup name
  | _ => none

end Setting

end Expunge
