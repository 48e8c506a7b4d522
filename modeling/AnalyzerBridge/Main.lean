/-
The command line as a program.

The files that an invocation looks at are read first; all else is `CommandLine.run`.
Programs that the settings name run on the host of `Shell.World`.
-/
import AnalyzerBridge.CommandLine.Basic
import AnalyzerBridge.Shell.Host

namespace AnalyzerBridge.CommandLine

/-- The paths that an invocation looks at. -/
def Invocation.paths : Invocation → List PurePath
  | .check file root _ _ _ =>
    let path := PurePath.parse file
    [path, Settings.filePath (some ((root.map PurePath.parse).getD path.parent)) none]
  | .parse _ root _ => [Settings.filePath (root.map PurePath.parse) none]
  | .lint file => [PurePath.parse file]
  | .serve => []

/-- Reads a file; one that cannot be read counts as missing. -/
def readContent (path : PurePath) : IO FileContent := do
  try
    return .bytes (← IO.FS.readBinFile path.text).toList
  catch _ => return .missing

/-- The environment variables that are looked at. -/
def readEnvironment : IO Settings.Environment := do
  return {
    timeoutMs := ← IO.getEnv Settings.timeoutVariable
    command := ← IO.getEnv Settings.commandVariable
    jar := ← IO.getEnv Settings.jarVariable }

/-- Runs the command line and answers with the exit code. -/
def runCommandLine (arguments : List String) : IO UInt32 := do
  let paths := ((Invocation.ofArguments arguments).toOption.map Invocation.paths).getD []
  let contents ← paths.mapM fun path => do return (path, ← readContent path)
  let files : Files := fun path => (contents.lookup path).getD .missing
  let setup : Setup Unit :=
    { files := files, environment := ← readEnvironment, invoke := Shell.invoker { files := files } }
  match ((run setup arguments).runOn { surroundings := () }).1 with
  | .ok (.printed p) =>
    IO.print p.stdout
    IO.eprint p.stderr
    return UInt32.ofNat p.exitCode
  | .ok .misuse => return UInt32.ofNat misuseCode
  | .ok .serving => return 0
  | .error f =>
    IO.eprintln f.message
    return 1

end AnalyzerBridge.CommandLine

/-- Runs the command line. -/
def main (arguments : List String) : IO UInt32 :=
  AnalyzerBridge.CommandLine.runCommandLine arguments
