import Expunge.FileTree
import Expunge.Settings.Basic
import Expunge.Settings.Variables
import Expunge.Toml.Document

/-!
# Loading settings

A program takes its settings from three places: the defaults, a TOML file that overrides them, and
environment variables that override both. Main definition: `Environment.settings?`.
-/

namespace Expunge

/-- What surrounds a program: files, the directory it runs in, and environment variables by name. -/
structure Environment where
  files : FileTree
  directory : List String
  vars : List (String × String)

namespace Environment

/-- The file of settings that is used when no other is named. -/
def defaultPath : String := "erasure.toml"

/-- The contents of the file at a path joined to a directory, if there is such a file. -/
def content? (environment : Environment) (path : String) (directory : List String) :
    Option (List Text.Symbol) :=
  match environment.files.read [] (FileTree.join (FileTree.absolutePath directory) path) with
  | .ok content => some content
  | .error _ => none

/-- The directory that a program runs in and those around it, the nearest first. -/
def directories (environment : Environment) : List (List String) :=
  (List.range (environment.directory.length + 1)).reverse.map environment.directory.take

/-- The contents of the file at a path seen from the nearest directory that has it. -/
def nearestContent? (environment : Environment) (path : String) : Option (List Text.Symbol) :=
  environment.directories.findSome? (environment.content? path)

/-- The tree of the settings in the file at a path. A file that does not exist has none; one that is
not TOML has no tree. -/
def fileTree? (environment : Environment) (path : String) : Option Setting :=
  match environment.nearestContent? path with
  | none => some (.table [])
  | some content => do (← Setting.ofToml? (← content.mapM id)).unwrapParts?

/-- The settings of a program that is told to use the file at a path, or none in particular. -/
def settings? (environment : Environment) (path : Option String) : Option Settings := do
  let file ← environment.fileTree? (path.getD defaultPath)
  let overrides := Settings.Variables.tree environment.vars
  Settings.ofTree? ((Settings.default.toTree.merge file).merge overrides)

end Environment

end Expunge
