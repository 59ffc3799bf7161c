import Expunge.CommandLine
import Expunge.Delivery
import Expunge.Settings.Load
import Expunge.Source.File
import Expunge.Transport.Lines
import Expunge.Transport.Topics

/-!
# The program

What a command does in an environment: what it prints, and how it ends. Main definitions:
`Program.execute`, which carries out a command under given settings, and `Program.run`, which starts
from a command line.
-/

namespace Expunge

/-- Why a program fails. -/
inductive ProgramError
  | settingsUnavailable
  | invalidSettings (fault : Settings.Fault)
  | compilation (job : String) (cause : CompileError)
  | delivery (job : String) (cause : PublishError)
deriving DecidableEq, Repr

namespace ProgramError

/-- The text of an error, without its cause. -/
def message : ProgramError → String
  | settingsUnavailable => "Failed to load configuration"
  | invalidSettings fault => fault.message
  | compilation job _ => "Failed to compile deletion job " ++ job
  | delivery job _ => "Failed to deliver queries for job " ++ job

/-- The text of the cause of an error, where there is one. -/
def cause? : ProgramError → Option String
  | compilation _ cause => some cause.message
  | delivery _ cause => some cause.message
  | settingsUnavailable | invalidSettings _ => none

end ProgramError

/-- How a program ends. -/
inductive Ending
  | success
  | usage
  | failure (error : ProgramError)
deriving DecidableEq, Repr

namespace Ending

/-- The code that tells an ending to the caller of a program. -/
def code : Ending → Nat
  | success => 0
  | failure _ => 1
  | usage => 2

end Ending

/-- What a program prints, as bytes, and how it ends. -/
structure Outcome where
  output : List UInt8
  ending : Ending
deriving DecidableEq, Repr

namespace Outcome

/-- The outcome that prints lines. -/
def ofLines (lines : List String) : Outcome :=
  ⟨lines.flatMap fun line => LineOutput.bytes (line ++ "\n"), .success⟩

/-- The outcome that prints nothing and fails. -/
def failed (error : ProgramError) : Outcome :=
  ⟨[], .failure error⟩

end Outcome

namespace Program

/-! ## Texts -/

/-- The name of the program and its version. -/
def programVersion : String := "erasure 0.1.0"

/-- What the command for the version shows: the name and version of what all programs share, and the
least version of the tools that build it. -/
def sharedVersion : String := "common 0.1.0 (1.85.0)"

/-- How the program is used. -/
def usage : List String :=
  ["Compiles pending erasure requests into per-partition deletion queries",
   "",
   "Usage: erasure [OPTIONS] <COMMAND>",
   "",
   "Commands:",
   "  compile   Compile one deletion job and deliver the resulting queries",
   "  config    Show current configuration and exit",
   "  validate  Validate configuration and exit",
   "  version   Show version information and exit",
   "",
   "Options:",
   "      --config <CONFIG>  Configuration file path",
   "  -v, --verbose          Enable verbose logging",
   "  -q, --quiet            Enable quiet mode (minimal output)",
   "  -h, --help             Print help",
   "  -V, --version          Print version"]

/-! ## Commands -/

/-- The sources that settings name. -/
def sources (environment : Environment) (settings : SourceSettings) : Sources :=
  .ofFiles (environment.files.read environment.directory) settings.catalogPath settings.pageSize
    settings.queueDirectory settings.mappersPath

/-- The paths of the files that a command may read under settings. -/
def paths (settings : SourceSettings) : Command → List String
  | .compile job =>
    let queue := (QueueDirectory.mk settings.queueDirectory).jobPath job
    settings.catalogPath :: settings.mappersPath :: queue.toOption.toList
  | .showSettings _ | .validate | .version => []

/-- Delivers the queries of a job as settings say. -/
def deliver (settings : DeliverySettings) (job : String) (queries : List Query) : Outcome :=
  let toOutcome (delivered : Except PublishError Nat) (output : List UInt8) : Outcome :=
    match delivered with
    | .ok _ => ⟨output, .success⟩
    | .error cause => ⟨output, .failure (.delivery job cause)⟩
  match settings.outlet with
  | .memory =>
    let (delivered, _) :=
      Delivery.deliver Topics.transport settings.topic settings.batchSize job queries .empty
    toOutcome delivered []
  | .stdout =>
    let (delivered, output) :=
      Delivery.deliver LineOutput.transport settings.topic settings.batchSize job queries .unlimited
    toOutcome delivered output.written

/-- Compiles a job and delivers its queries. -/
def compile (environment : Environment) (settings : Settings) (job : String) : Outcome :=
  let run := Job.generate settings.compiler.failurePolicy (sources environment settings.sources) job
  match run.outcome with
  | .ok report => deliver settings.delivery job report.queries
  | .error cause => .failed (.compilation job cause)

/-- Checks settings. -/
def validate (settings : Settings) : Outcome :=
  match settings.fault? with
  | none => .ofLines []
  | some fault => .failed (.invalidSettings fault)

/-- Carries out a command under settings. -/
def execute (environment : Environment) (settings : Settings) : Command → Outcome
  | .compile job => compile environment settings job
  | .showSettings asDocument =>
    .ofLines (if asDocument then [settings.toJson.writePretty] else settings.listing)
  | .validate => validate settings
  | .version => .ofLines [sharedVersion]

/-- Carries out a command under settings that have to be checked for it. Only a job needs checked
settings. -/
def executeChecked (environment : Environment) (settings : Settings) (command : Command) :
    Outcome :=
  match command, settings.fault? with
  | .compile _, some fault => .failed (.invalidSettings fault)
  | command, _ => execute environment settings command

/-! ## Runs -/

/-- Carries out an invocation. Every command needs the settings to load, also one that does not use
them. -/
def runInvocation (environment : Environment) (invocation : Invocation) : Outcome :=
  match environment.settings? invocation.settingsPath with
  | none => .failed .settingsUnavailable
  | some settings => executeChecked environment settings invocation.command

/-- Runs the program with the words of a command line. -/
def run (environment : Environment) (words : List String) : Outcome :=
  match CommandLine.parse words with
  | .ok invocation => runInvocation environment invocation
  | .error .version => .ofLines [programVersion]
  | .error .help => .ofLines usage
  | .error .usage => ⟨[], .usage⟩

end Program

end Expunge
