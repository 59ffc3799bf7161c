import Expunge.Program

/-!
# Entry point

Takes a snapshot of what surrounds the program, hands it to `Program.run`, and prints the outcome.
The snapshot holds the files that the program asks for and nothing else.
-/

namespace Expunge

/-- Adds what is at a place of the file system to a tree. What cannot be read counts as missing. -/
def FileTree.capture (tree : FileTree) (place : List String) : IO FileTree := do
  let path := "/" ++ "/".intercalate place
  try
    let content ← IO.FS.readBinFile path
    return tree.write place (Text.symbolsOfBytes content.toList)
  catch _ =>
    try
      let _ ← IO.FS.realPath (path ++ "/.")
      return tree.makeDirectories place
    catch _ => return tree

/-- Adds a file and the directories on the way to it to a tree. -/
def FileTree.capturePath (tree : FileTree) (directory : List String) (path : String) :
    IO FileTree := do
  let names := FileTree.components path
  let start := if FileTree.isAbsolute path then [] else directory
  let places := (List.range (names.length + 1)).map fun count =>
    FileTree.placeOf start ("/".intercalate (names.take count))
  places.foldlM FileTree.capture tree

/-- The environment variables of the program, in the order in which they were handed to it. -/
def environmentVariables : IO (List (String × String)) := do
  let bytes ← IO.FS.readBinFile "/proc/self/environ"
  let texts := (Text.splitAll '\x00' ((Text.symbolsOfBytes bytes.toList).map (·.getD '\ufffd')))
  return texts.filterMap fun text =>
    match text.dropWhile (· ≠ '=') with
    | _ :: value => some (String.ofList (text.takeWhile (· ≠ '=')), String.ofList value)
    | [] => none

/-- The surroundings of the program for an invocation. -/
def Environment.capture (invocation : Invocation) : IO Environment := do
  let directory := FileTree.placeOf [] (← IO.currentDir).toString
  let empty : Environment := ⟨.empty, directory, ← environmentVariables⟩
  let path := invocation.settingsPath.getD Environment.defaultPath
  let files ← empty.directories.foldlM (fun tree place => tree.capturePath place path) empty.files
  let environment := { empty with files := files }
  match environment.settings? invocation.settingsPath with
  | none => return environment
  | some settings =>
    let paths := Program.paths settings.sources invocation.command
    let files ← paths.foldlM (fun tree path => tree.capturePath directory path) files
    return { environment with files := files }

/-- Tells the user of the program how it ended, unless it succeeded. -/
def Ending.report (ending : Ending) : IO Unit := do
  match ending with
  | .success => return
  | .usage => Program.usage.forM IO.eprintln
  | .failure error =>
    IO.eprintln ("Error: " ++ error.message)
    if let some cause := error.cause? then
      IO.eprintln ("\nCaused by:\n    " ++ cause)

end Expunge

open Expunge in
/-- Runs the program; the result is its exit code. -/
def main (words : List String) : IO UInt32 := do
  let environment ← match CommandLine.parse words with
    | .ok invocation => Environment.capture invocation
    | .error _ => pure ⟨.empty, [], []⟩
  let outcome := Program.run environment words
  let output ← IO.getStdout
  output.write ⟨outcome.output.toArray⟩
  output.flush
  outcome.ending.report
  return UInt32.ofNat outcome.ending.code
