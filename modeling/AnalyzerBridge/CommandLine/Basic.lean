/-
The command line.

`analyze` answers one request under the settings of a root and the options given;
`run` carries out an invocation and answers with what is printed.

Design notes: `check` reads its file as text, so that all newlines are alike,
while `lint` reads bytes.
-/
import AnalyzerBridge.CommandLine.Arguments
import AnalyzerBridge.Coordinator
import AnalyzerBridge.Json.Writer
import AnalyzerBridge.Schema.Record

namespace AnalyzerBridge.CommandLine

variable {ε : Type}

/-- Where the command line finds files, variables and the analyzer, and how much room the readers of the
settings file and of the analyzer's output have on the stack. -/
structure Setup (ε : Type) where
  files : Files
  environment : Settings.Environment := {}
  invoke : Invoker ε
  room : Toml.Room := Toml.runRoom
  depth : Nat := Json.runDepth

/-- What is printed, and the exit code. -/
structure Printed where
  stdout : String := ""
  stderr : String := ""
  exitCode : Nat := 0
  deriving DecidableEq

/-- How a run ends: it prints, it is refused for misuse, or it serves. -/
inductive Response where
  | printed (p : Printed)
  | misuse
  | serving
  deriving DecidableEq

/-- The exit code of misuse. -/
def misuseCode : Nat := 2

/-- The name of the one request of a run. -/
def requestName : String := "command-line"

/-- The settings that options override; an absent timeout overrides nothing. -/
def overrides (timeout : Value) (heuristicsOnly strict : Bool) : Table :=
  (if timeout.isNull then [] else [("timeout_ms", timeout)]) ++
    (if heuristicsOnly then [("enabled", .bool false)] else []) ++
    (if strict then [("strict_output", .bool true)] else [])

/-- Analyzes a source under the settings of a root. -/
def analyze (setup : Setup ε) (source : String) (root : Option PurePath) (timeout : Value)
    (heuristicsOnly strict : Bool) : Act (Workspace ε) Outcome := do
  let settings ← Act.ofExcept (Settings.resolve setup.files root none setup.environment
    (overrides timeout heuristicsOnly strict) setup.room)
  let c : Coordinator ε := { settings := settings, invoke := setup.invoke, depth := setup.depth }
  c.analyze { source := source, id := requestName, deadlineMs := settings.timeoutMs } none

/-- An outcome as it is printed: the record on the output, the caveat on the error stream. -/
def printOutcome (o : Outcome) : Except Failure Printed :=
  (o.record.mapError Failure.invalid).map fun record =>
    { stdout := Json.pretty record.toValue ++ "\n"
      stderr := match o.caveat with
        | none | some "" => ""
        | some caveat => caveat ++ "\n"
      exitCode := if o.success then 0 else 1 }

/-- The text of a source file: bytes that are no text are replaced and newlines are unified. -/
def sourceText (bytes : List UInt8) : String :=
  String.ofList (Text.unifyNewlines (Text.Utf8.decodeLossy bytes))

/-- The outcome of the scan alone on the bytes of a file. -/
def lintOutcome (bytes : List UInt8) : Outcome :=
  Outcome.ofFindings .heuristic (Scan.validate (.bytes bytes))

/-- Carries out an invocation. -/
def carryOut (setup : Setup ε) : Invocation → Act (Workspace ε) Response
  | .check file root timeoutMs heuristicsOnly strict => do
    match setup.files.contentOf file with
    | .bytes bytes =>
      let root := (root.map PurePath.parse).getD (PurePath.parse file).parent
      let outcome ← analyze setup (sourceText bytes) (some root) (Value.ofInt? timeoutMs)
        heuristicsOnly strict
      return .printed (← Act.ofExcept (printOutcome outcome))
    | _ => return .misuse
  | .parse source root timeoutMs => do
    let outcome ← analyze setup source (root.map PurePath.parse) (Value.ofInt? timeoutMs)
      false false
    return .printed (← Act.ofExcept (printOutcome outcome))
  | .lint file => do
    match setup.files.contentOf file with
    | .bytes bytes => return .printed (← Act.ofExcept (printOutcome (lintOutcome bytes)))
    | .unreadable => throw .unreadable
    | _ => return .misuse
  | .serve => return .serving

/-- Runs the command line. -/
def run (setup : Setup ε) (arguments : List String) : Act (Workspace ε) Response :=
  match Invocation.ofArguments arguments with
  | .ok invocation => carryOut setup invocation
  | .error .misuse => return .misuse
  | .error .nullInPath => throw .nullInPath

end AnalyzerBridge.CommandLine
