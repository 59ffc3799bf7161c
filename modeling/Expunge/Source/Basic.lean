import Expunge.Run
import Expunge.Match
import Expunge.Pieces
import Expunge.Table

/-!
# Sources

A job reads from three sources: a catalog of tables, the queues of matches and a registry of data
mappers. Partitions come as a feed, which a reader takes step by step: the steps of a feed after the
last one taken have no effect.
-/

namespace Expunge

/-- A step of a feed of partitions: a page is fetched, a partition of it is delivered, or the feed
fails. -/
inductive FeedStep
  | page
  | row (row : Partition)
  | fault (error : SourceError)
deriving DecidableEq, Repr

/-- A feed of partitions. It ends after its last step. -/
abbrev Feed := List FeedStep

namespace Feed

/-- The feed that delivers partitions in pages of the given size. A page is fetched only when its
first partition is asked for. -/
def paged (pageSize : Nat) (rows : List Partition) : Feed :=
  (pieces pageSize rows).flatMap fun page => .page :: page.map .row

/-- The feed that only fails. -/
def failed (error : SourceError) : Feed :=
  [.fault error]

/-- All partitions that a feed delivers, or the error that it ends with. -/
def rows : Feed → Except SourceError (List Partition)
  | [] => .ok []
  | .page :: rest => rows rest
  | .row row :: rest => do return row :: (← rows rest)
  | .fault error :: _ => .error error

end Feed

/-- A catalog of tables: the description of a table, and the feed of its partitions. -/
structure Catalog where
  table : String → String → Except SourceError Table
  partitions : String → String → Feed

/-- A registry of data mappers, as the stream it delivers. -/
abbrev Registry := List (Except SourceError MapperRecord)

/-- All records that a registry delivers, or the first error among them. -/
def Registry.records (registry : Registry) : Except SourceError (List MapperRecord) :=
  registry.mapM id

/-- The sources of a job. -/
structure Sources where
  catalog : Catalog
  queue : String → Except SourceError (List Match)
  mappers : Registry

end Expunge
