import Expunge.Text.Split

/-!
# Command lines

The words of a command line are options and one command with options of its own. Options come in
three forms: a long name, a long name with a value in the same word or the next, and letters that
may share a word. Main definition: `CommandLine.parse`.
-/

namespace Expunge

/-- What a program is asked to do. -/
inductive Command
  /-- Compile a job and deliver its queries. -/
  | compile (job : String)
  /-- Show the settings, as a listing or as a document. -/
  | showSettings (asDocument : Bool)
  /-- Check the settings. -/
  | validate
  /-- Show the version. -/
  | version
deriving DecidableEq, Repr

/-- A command line that asks for a command. -/
structure Invocation where
  /-- The file of settings to use. -/
  settingsPath : Option String
  /-- Whether more is to be logged. -/
  verbose : Bool
  /-- Whether less is to be logged. -/
  quiet : Bool
  command : Command
deriving DecidableEq, Repr

/-- Why a command line asks for no command. -/
inductive Stop
  /-- It is not well formed. -/
  | usage
  /-- It asks for the version of the program. -/
  | version
  /-- It asks how the program is used. -/
  | help
deriving DecidableEq, Repr

namespace CommandLine

/-! ## Options -/

/-- An option without a value. -/
inductive Switch
  | verbose
  | quiet
  | document
  | version
  | help
deriving DecidableEq, Repr

/-- An option with a value. -/
inductive Slot
  | settingsPath
  | job
deriving DecidableEq, Repr

namespace Slot

/-- Whether an option may have an empty value. -/
def takesEmpty : Slot → Bool
  | settingsPath => false
  | job => true

end Slot

/-- The options that are understood at one place of a command line. -/
structure Options where
  switches : List (String × Switch)
  letters : List (Char × Switch)
  slots : List (String × Slot)

/-- The options that are understood everywhere. -/
def Options.general : Options where
  switches := [("verbose", .verbose), ("quiet", .quiet), ("help", .help)]
  letters := [('v', .verbose), ('q', .quiet), ('h', .help)]
  slots := [("config", .settingsPath)]

/-- The options before the command. -/
def Options.outer : Options :=
  { Options.general with
    switches := ("version", .version) :: Options.general.switches
    letters := ('V', .version) :: Options.general.letters }

/-- The options met so far at one place of a command line. -/
structure Seen where
  switches : List Switch
  values : List (Slot × String)
deriving DecidableEq, Repr

namespace Seen

/-- No option. -/
def nothing : Seen :=
  ⟨[], []⟩

/-- Takes in a switch, which may not be repeated. -/
def press (seen : Seen) : Switch → Except Stop Seen
  | .version => .error .version
  | .help => .error .help
  | switch =>
    if seen.switches.contains switch then .error .usage
    else .ok { seen with switches := switch :: seen.switches }

/-- Takes in the value of a slot, which may not be filled twice. -/
def fill (seen : Seen) (slot : Slot) (value : String) : Except Stop Seen :=
  if (seen.values.lookup slot).isSome || (value.isEmpty && !slot.takesEmpty) then .error .usage
  else .ok { seen with values := (slot, value) :: seen.values }

end Seen

/-- Whether a word looks like an option, so that it is not the value of the option before it. -/
def isDashed (word : String) : Bool :=
  word.toList.head? = some '-' && word ≠ "-"

/-- The name and the value in a word with an equals sign; without one there is no value. -/
def splitValue (text : List Char) : String × Option String :=
  match text.dropWhile (· ≠ '=') with
  | _ :: value => (String.ofList (text.takeWhile (· ≠ '=')), some (String.ofList value))
  | [] => (String.ofList text, none)

/-- Takes in the options at the start of some words. The rest starts with the first word that is no
option; two dashes alone are none. -/
def scan (options : Options) : List String → Seen → Except Stop (Seen × List String)
  | [], seen => .ok (seen, [])
  | word :: rest, seen =>
    match word.toList with
    | ['-', '-'] => .ok (seen, word :: rest)
    | '-' :: '-' :: text =>
      let (name, value) := splitValue text
      match options.switches.lookup name, options.slots.lookup name, value with
      | some switch, _, none => do scan options rest (← seen.press switch)
      | none, some slot, some value => do scan options rest (← seen.fill slot value)
      | none, some slot, none =>
        match rest with
        | value :: rest =>
          if isDashed value then .error .usage
          else do scan options rest (← seen.fill slot value)
        | [] => .error .usage
      | _, _, _ => .error .usage
    | '-' :: c :: letters => do
      let press (seen : Seen) (letter : Char) : Except Stop Seen :=
        match options.letters.lookup letter with
        | some switch => seen.press switch
        | none => .error .usage
      scan options rest (← (c :: letters).foldlM press seen)
    | _ => .ok (seen, word :: rest)

/-! ## Commands -/

/-- A command without what its options say. -/
inductive Verb
  | compile
  | showSettings
  | validate
  | version
deriving DecidableEq, Repr

namespace Verb

/-- The verbs by their names. -/
def named : List (String × Verb) :=
  [("compile", compile), ("config", showSettings), ("validate", validate), ("version", version)]

/-- The options after a verb. -/
def options : Verb → Options
  | compile => { Options.general with slots := ("job-id", .job) :: Options.general.slots }
  | showSettings =>
    { Options.general with switches := ("json", .document) :: Options.general.switches }
  | validate | version => Options.general

/-- The command of a verb with its options. -/
def command? (verb : Verb) (seen : Seen) : Option Command :=
  match verb with
  | compile => (seen.values.lookup .job).map .compile
  | showSettings => some (.showSettings (seen.switches.contains .document))
  | validate => some .validate
  | version => some .version

end Verb

/-- What the words after the name of a verb ask for, given the options before it. An option that
stands on both sides counts as it stands after the verb. -/
def parseVerb (outer : Seen) (verb : Verb) (words : List String) : Except Stop Invocation := do
  let (inner, rest) ← scan verb.options words .nothing
  unless rest = [] ∨ rest = ["--"] do throw .usage
  let some command := verb.command? inner | throw .usage
  let isPressed (switch : Switch) : Bool :=
    outer.switches.contains switch || inner.switches.contains switch
  return {
    settingsPath := (inner.values.lookup .settingsPath).or (outer.values.lookup .settingsPath)
    verbose := isPressed .verbose
    quiet := isPressed .quiet
    command := command }

/-- What the words after `help` ask for: how the program, or a verb of it, is used. -/
def parseHelp (words : List String) : Stop :=
  match words with
  | [] => .help
  | [name] => if name = "help" ∨ (Verb.named.lookup name).isSome then .help else .usage
  | _ => .usage

/-- What the words of a command line ask for. -/
def parse (words : List String) : Except Stop Invocation := do
  let (outer, rest) ← scan Options.outer words .nothing
  match rest with
  | [] => throw .usage
  | "help" :: words => throw (parseHelp words)
  | name :: words =>
    let some verb := Verb.named.lookup name | throw .usage
    parseVerb outer verb words

end CommandLine

end Expunge
