import Expunge.Error
import Expunge.Text.Split

/-!
# File trees

A snapshot of directories and files, and the reading of a file at a path in it. Paths are resolved
against a working directory, component by component: an empty component and `.` stay where they are,
`..` goes up.
-/

namespace Expunge

/-- What a directory holds under a name: a directory, or a file with its contents. -/
inductive FileNode
  | directory
  | file (content : List Text.Symbol)
deriving DecidableEq, Repr

/-- The places of a tree that are not its root, each given by the names on the way to it. -/
structure FileTree where
  nodes : List (List String × FileNode)
deriving DecidableEq, Repr

/-- What reading the file at a path gives. -/
abbrev Files := String → Except FileFault (List Text.Symbol)

namespace FileTree

/-- The root alone. -/
def empty : FileTree :=
  ⟨[]⟩

/-- The node at a place. -/
def node? (tree : FileTree) (place : List String) : Option FileNode :=
  if place.isEmpty then some .directory else tree.nodes.lookup place

/-- Removes the node at a place. -/
def erase (tree : FileTree) (place : List String) : FileTree :=
  ⟨tree.nodes.filter (·.1 ≠ place)⟩

/-- Puts a node at a place. -/
def set (tree : FileTree) (place : List String) (node : FileNode) : FileTree :=
  ⟨(place, node) :: (tree.erase place).nodes⟩

/-- Makes the directories on the way to a place, the place itself included. -/
def makeDirectories (tree : FileTree) (place : List String) : FileTree :=
  (List.range place.length).foldl (fun tree n =>
    let above := place.take (n + 1)
    if (tree.node? above).isSome then tree else tree.set above .directory) tree

/-- Writes a file, making the directories it is in. -/
def write (tree : FileTree) (place : List String) (content : List Text.Symbol) : FileTree :=
  (tree.makeDirectories place.dropLast).set place (.file content)

/-- The names that a path goes through. -/
def components (path : String) : List String :=
  (Text.splitAll '/' path.toList).map String.ofList

/-- Whether a path starts at the root. -/
def isAbsolute (path : String) : Bool :=
  path.toList.head? = some '/'

/-- The most bytes in a name. -/
def nameLimit : Nat := 255

/-- The number of bytes that every path is shorter than. -/
def pathLimit : Nat := 4096

/-- The place that components lead to from a directory, which has to be passed through
directories. -/
def walk (tree : FileTree) (place : List String) : List String → Except FileFault (List String)
  | [] => .ok place
  | name :: rest =>
    match tree.node? place with
    | none => .error .notFound
    | some (.file _) => .error .notADirectory
    | some .directory =>
      if name = "" ∨ name = "." then walk tree place rest
      else if name = ".." then walk tree place.dropLast rest
      else if nameLimit < name.utf8ByteSize then .error .invalidFilename
      else walk tree (place ++ [name]) rest

/-- The place of a path. -/
def resolve (tree : FileTree) (directory : List String) (path : String) :
    Except FileFault (List String) :=
  if path.toList.contains '\x00' then .error .invalidInput
  else if path.isEmpty then .error .notFound
  else if pathLimit ≤ path.utf8ByteSize then .error .invalidFilename
  else tree.walk (if isAbsolute path then [] else directory) (components path)

/-- The place that a path names if there are directories all the way to it. -/
def placeOf (directory : List String) (path : String) : List String :=
  (components path).foldl (fun place name =>
    if name = "" ∨ name = "." then place
    else if name = ".." then place.dropLast
    else place ++ [name]) (if isAbsolute path then [] else directory)

/-- The contents of the file at a path, seen from a directory. -/
def read (tree : FileTree) (directory : List String) : Files := fun path => do
  let place ← tree.resolve directory path
  match tree.node? place with
  | none => .error .notFound
  | some .directory => .error .isADirectory
  | some (.file content) => .ok content

/-- The path of a place from the root. -/
def absolutePath (place : List String) : String :=
  "/" ++ "/".intercalate place

/-- A path joined to a directory. An absolute path stands for itself. -/
def join (directory path : String) : String :=
  if isAbsolute path || directory.isEmpty then path
  else if directory.toList.getLast? = some '/' then directory ++ path
  else directory ++ "/" ++ path

end FileTree

end Expunge
