/-
The settings of the bridge.

`resolve` builds them from four layers, lowest first: built-in defaults, the
settings file, the environment, and explicit overrides.  A file that cannot be
read or is no TOML reads as empty.

Design notes: the file system enters as a function from paths to contents, so
that resolving is a pure function of what the layers hold.  The room that the
reader of the file has on the stack is an argument for the same reason.
-/
import AnalyzerBridge.Settings.Layer
import AnalyzerBridge.Toml.Document

namespace AnalyzerBridge

/-- The settings of the bridge. -/
structure Settings where
  enabled : Bool := true
  command : String := "java"
  args : List String := []
  timeoutMs : Int := 5000
  strictOutput : Bool := false
  heuristicsEnabled : Bool := true
  deriving DecidableEq, Inhabited

/-- What is found at a path. -/
inductive FileContent where
  | missing
  | directory
  | unreadable
  | bytes (b : List UInt8)

/-- The contents of files by path. -/
abbrev Files := PurePath → FileContent

/-- What is at a path given as text.  A slash at its end asks for a folder. -/
def Files.contentOf (files : Files) (text : String) : FileContent :=
  match files (PurePath.parse text) with
  | .directory => .directory
  | c => if text.toList.getLast? == some '/' then .missing else c

namespace Settings

/-- The name of the settings file. -/
def fileName : String := "ergols.toml"

/-- The archive that the analyzer runs from by default. -/
def defaultJar : PurePath :=
  PurePath.parse "sigmastate-interpreter/target/scala-2.13/sigma.jar"

/-- The table in a settings file.  Bytes that are no UTF-8, a number that is too long and a nesting that
is too deep are failures; any other fault empties the table. -/
def readContent (content : FileContent) (room : Toml.Room := Toml.runRoom) :
    Except Failure Table :=
  match content with
  | .missing => .ok []
  | .directory => .ok []
  | .unreadable => .ok []
  | .bytes b =>
    match Text.Utf8.decode? b with
    | .error fault => .error (.undecodable fault)
    | .ok text =>
      match Toml.parse text room with
      | .ok t => .ok t
      | .error .malformed => .ok []
      | .error .tooDeep => .error .tooDeep
      | .error (.integerTooLong digits) => .error (.integerTooLong digits)

/-- Where the settings file is: where it is said to be, else under the root, else in the current
folder. -/
def filePath (root file : Option PurePath) : PurePath :=
  file.getD ((root.getD {}).join (PurePath.parse fileName))

/-- The table in the settings file. -/
def load (files : Files) (root file : Option PurePath) (room : Toml.Room := Toml.runRoom) :
    Except Failure Table :=
  let path := filePath root file
  if path.hasNull then .error .nullInPath else readContent (files path) room

/-- A section of the settings file; what is no table counts as empty. -/
def tableAt (t : Table) (name : String) : Table :=
  match t.get? name with
  | some (.table inner) => inner
  | _ => []

/-- The section of the analyzer. -/
def analyzerSection (t : Table) : Table :=
  tableAt t "analyzer"

/-- The section of the scan. -/
def heuristicsSection (t : Table) : Table :=
  tableAt t "heuristics"

/-- The environment variables that are looked at. -/
structure Environment where
  timeoutMs : Option String := none
  command : Option String := none
  jar : Option String := none
  deriving DecidableEq, Inhabited

/-- The name of the variable that holds the timeout. -/
def timeoutVariable : String := "ERGOLS_ANALYZER_TIMEOUT_MS"

/-- The name of the variable that holds the command. -/
def commandVariable : String := "ERGOLS_ANALYZER_COMMAND"

/-- The name of the variable that holds the archive. -/
def jarVariable : String := "ERGOLS_ANALYZER_JAR"

/-- The stripped text of a variable, unless it is unset or blank. -/
def nonBlank? (v : Option String) : Option String :=
  (v.map Text.stripString).filter fun s => s != ""

/-- The layer of the environment. -/
def environmentLayer (env : Environment) : Except Failure Table :=
  let others := (nonBlank? env.command).toList.map (fun s => ("command", Value.text s)) ++
    (nonBlank? env.jar).toList.map fun s => ("jar", Value.text s)
  match nonBlank? env.timeoutMs, env.timeoutMs with
  | some _, some whole =>
    (asTimeout timeoutVariable (.text whole)).map fun ms => ("timeout_ms", Value.int ms) :: others
  | _, _ => .ok others

/-- The archive that the analyzer runs from, seen from the root. -/
def jarPath (root : Option PurePath) (jar : Value) : PurePath :=
  let path := if jar.isNullOrEmptyText then defaultJar else PurePath.parse jar.spelled
  match root with
  | some base => base.join path
  | none => path

/-- Fails unless a value can be spelled. -/
def requireSpellable (v : Value) : Except Failure Unit :=
  if v.isSpellable then .ok () else .error .integerUnspellable

/-- The timeout that the merged layers give. -/
def timeoutOf (v : Value) : Except Failure Int :=
  if v.isNullOrEmptyText then .ok ({} : Settings).timeoutMs
  else asTimeout "analyzer.timeout_ms" v

/-- The items of a list; any other value has none. -/
def itemsOf : Value → List Value
  | .list items => items
  | _ => []

/-- The settings that the merged layers and the section of the scan give. -/
def ofLayers (root : Option PurePath) (merged heuristics : Table) : Except Failure Settings := do
  let chosen := fun name => (merged.get? name).getD .null
  requireSpellable (chosen "jar")
  requireSpellable (.list (itemsOf (chosen "args")))
  let timeoutMs ← timeoutOf (chosen "timeout_ms")
  requireSpellable (chosen "command")
  return {
    enabled := asBool (chosen "enabled") true
    command := if (chosen "command").isGiven then (chosen "command").spelled
      else ({} : Settings).command
    args := (asArguments? (chosen "args")).getD
      (defaultArguments (jarPath root (chosen "jar")).text)
    timeoutMs := timeoutMs
    strictOutput := asBool (chosen "strict_output") false
    heuristicsEnabled := asBool ((heuristics.get? "enabled").getD .null) true }

/-- The settings from all layers. -/
def resolve (files : Files) (root file : Option PurePath) (env : Environment) (overrides : Table)
    (room : Toml.Room := Toml.runRoom) : Except Failure Settings :=
  match load files root file room with
  | .error f => .error f
  | .ok t =>
    match environmentLayer env with
    | .error f => .error f
    | .ok layer =>
      ofLayers root (overlay overrides (overlay layer (analyzerSection t))) (heuristicsSection t)

end Settings

end AnalyzerBridge
