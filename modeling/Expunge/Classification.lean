import Expunge.Column.Cast
import Expunge.Match
import Expunge.Query
import Expunge.Table

/-!
# Classification

The matches of a job become the groups of one data mapper's queries. The single values of simple
matches are searched for in every configured column; the tuples of composite matches are collected
by the columns they name. Every value is cast to the type of its column on the way.
-/

namespace Expunge.Classification

/-- The items of a list that are not among those seen before it, each once, in the order of their
first occurrences. -/
def distinctFrom {α : Type} [DecidableEq α] (seen : List α) : List α → List α
  | [] => []
  | x :: rest => if x ∈ seen then distinctFrom seen rest else x :: distinctFrom (x :: seen) rest

/-- The distinct items of a list, in the order of their first occurrences. -/
def distinct {α : Type} [DecidableEq α] (xs : List α) : List α :=
  distinctFrom [] xs

/-- The matches that apply to a data mapper, each once. -/
def applicable (mapper : String) (requests : List Match) : List Match :=
  distinct (requests.filter (·.appliesTo mapper))

/-- The values of the simple matches among the given ones. -/
def simpleValues (requests : List Match) : List Value :=
  requests.filterMap fun
    | .simple value _ => some value
    | .composite _ _ => none

/-- The columns of a composite match in the order of their names; equal names stay in order. -/
def sortColumns (pairs : List ColumnValue) : List ColumnValue :=
  pairs.mergeSort fun a b => a.column ≤ b.column

/-- The composite matches among the given ones, with their columns sorted. -/
def composites (requests : List Match) : List (List ColumnValue) :=
  requests.filterMap fun
    | .simple _ _ => none
    | .composite pairs _ => some (sortColumns pairs)

/-- One group for each configured column, with all values cast to its type; no group at all if there
is no value. The first failing cast, column by column, is reported. -/
def simpleGroups (columns : List String) (table : Table) (values : List Value) :
    Except ColumnError (List Group) :=
  if values.isEmpty then .ok []
  else columns.mapM fun column => do
    let ids ← values.mapM fun value => Column.cast value column table.columns
    return .simple column ids

/-- The tuple of a composite match: its values, each cast to the type of its column. -/
def castTuple (table : Table) (pairs : List ColumnValue) : Except ColumnError (List Value) :=
  pairs.mapM fun pair => Column.cast pair.value pair.column table.columns

/-- Adds a tuple to the group of its columns, which is made at the end if it is new. -/
def addTuple (columns : List String) (tuple : List Value) :
    List (List String × List (List Value)) → List (List String × List (List Value))
  | [] => [(columns, [tuple])]
  | group :: groups =>
    if group.1 = columns then (group.1, group.2 ++ [tuple]) :: groups
    else group :: addTuple columns tuple groups

/-- The tuples of the composite matches whose columns are all configured, by the columns they name.
Other composite matches are left out, whatever their values. -/
def compositeTuples (columns : List String) (table : Table) (composites : List (List ColumnValue)) :
    Except ColumnError (List (List String × List (List Value))) :=
  (composites.filter fun pairs => pairs.all fun pair => columns.contains pair.column).foldlM
    (fun groups pairs => do
      let tuple ← castTuple table pairs
      return addTuple (pairs.map (·.column)) tuple groups) []

/-- The groups that the matches of a job give for a data mapper over a table: first one for each
configured column, then one for each list of columns that composite matches name. -/
def classify (requests : List Match) (mapper : Mapper) (table : Table) :
    Except ColumnError (List Group) := do
  let requests := applicable mapper.id requests
  let simple ← simpleGroups mapper.columns table (simpleValues requests)
  let tuples ← compositeTuples mapper.columns table (composites requests)
  return simple ++ tuples.map fun group => .composite group.1 group.2

end Expunge.Classification
