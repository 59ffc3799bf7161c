import Expunge.Source.Basic

/-!
# Sources that fail

Sources that answer like given ones up to a point and then fail. They show what a job makes of
errors that come up while it is under way.
-/

namespace Expunge

/-- A feed that fails after a number of partitions, or at its end if it has fewer. Nothing more is
taken from the given feed once that number is reached. -/
def Feed.failAfter (error : SourceError) : Nat → Feed → Feed
  | 0, _ => [.fault error]
  | _ + 1, [] => [.fault error]
  | count + 1, .page :: rest => .page :: failAfter error (count + 1) rest
  | count + 1, step :: rest => step :: failAfter error count rest

namespace Catalog

/-- A catalog whose feeds all fail after a number of partitions. -/
def failPartitionsAfter (catalog : Catalog) (error : SourceError) (count : Nat) : Catalog :=
  { catalog with partitions := fun database table =>
      (catalog.partitions database table).failAfter error count }

/-- A catalog that fails to describe the tables of a given name. -/
def failTable (catalog : Catalog) (error : SourceError) (failing : String) : Catalog :=
  { catalog with table := fun database table =>
      if table = failing then .error error else catalog.table database table }

end Catalog

/-- A registry that fails after a number of items, or at its end if it has fewer. -/
def Registry.failAfter (registry : Registry) (error : SourceError) (count : Nat) : Registry :=
  registry.take count ++ [.error error]

end Expunge
