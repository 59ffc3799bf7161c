import Expunge.Column.Basic
import Expunge.Mapper
import Expunge.Refusal

/-!
# Compile errors

What can go wrong while the queries of a dataset are compiled: the sources cannot be read, or what
they hold does not fit together. Only a failure to read a file may clear up by itself.
-/

namespace Expunge

/-- Why a file cannot be read. -/
inductive FileFault
  | notFound
  | isADirectory
  | notADirectory
  | invalidFilename
  | invalidInput
  | other
deriving DecidableEq, Repr

namespace FileFault

/-- The name of a fault. -/
def name : FileFault → String
  | notFound => "NotFound"
  | isADirectory => "IsADirectory"
  | notADirectory => "NotADirectory"
  | invalidFilename => "InvalidFilename"
  | invalidInput => "InvalidInput"
  | other => "Other"

end FileFault

/-- Why a catalog, a deletion queue or a registry of data mappers gives no answer. -/
inductive SourceError
  | tableNotFound (database table : String)
  | jobNotFound (job : String)
  | invalidJobId (job : String)
  | unreadable (path : String) (fault : FileFault)
  | refused (path : String) (refusal : Refusal)
deriving DecidableEq, Repr

namespace SourceError

/-- The text of an error. -/
def message : SourceError → String
  | tableNotFound database table => "Table " ++ database ++ "." ++ table ++ " not found in catalog"
  | jobNotFound job => "No deletion queue found for job " ++ job
  | invalidJobId job => "Invalid job id: " ++ job
  | unreadable path fault => "Failed to read " ++ path ++ ": " ++ fault.name
  | refused path refusal =>
    "Failed to parse " ++ path ++ ": " ++ refusal.message?.getD "unexpected content"

/-- Whether the same attempt may succeed later: files may become readable, while what is missing or
malformed stays so. -/
def isTransient : SourceError → Bool
  | unreadable _ _ => true
  | _ => false

end SourceError

/-- Why the queries of a dataset are not compiled. -/
inductive CompileError
  | column (error : ColumnError)
  | partitionMismatch (database table : String) (expected actual : Nat)
  | configuration (error : ConfigurationError)
  | source (error : SourceError)
deriving DecidableEq, Repr

namespace CompileError

/-- The text of an error. -/
def message : CompileError → String
  | column error => error.message
  | partitionMismatch database table expected actual =>
    "Partition of " ++ database ++ "." ++ table ++ " has " ++ String.ofList (Text.ofNat actual)
      ++ " values but the table declares " ++ String.ofList (Text.ofNat expected)
      ++ " partition keys"
  | configuration error => error.message
  | source error => error.message

/-- Whether the same attempt may succeed later. -/
def isTransient : CompileError → Bool
  | source error => error.isTransient
  | _ => false

end CompileError

end Expunge
