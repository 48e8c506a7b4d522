/-
Reading the command line.

`Invocation.ofArguments` turns the arguments into an `Invocation`, or says why it
cannot.  Options of a command may stand between its operands; after two dashes
everything is an operand.

Design notes: options are looked at in the order in which they first occur, then
operands, and the first fault among them is the one that counts.
-/
import AnalyzerBridge.Number.Integer
import AnalyzerBridge.Settings.PurePath

namespace AnalyzerBridge.CommandLine

/-- What the command line asks for. -/
inductive Invocation where
  | check (file : String) (root : Option String) (timeoutMs : Option Int)
      (heuristicsOnly strict : Bool)
  | parse (source : String) (root : Option String) (timeoutMs : Option Int)
  | lint (file : String)
  | serve
  deriving DecidableEq

/-- Why arguments are not carried out: they are misused, or a path holds a null character. -/
inductive Refusal where
  | misuse
  | nullInPath
  deriving DecidableEq

/-- The options that a command knows: those that stand alone and those with a value. -/
structure Options where
  flags : List String := []
  valued : List String := []

/-- Options and operands as given. -/
structure Given where
  flags : List String := []
  values : List (String × String) := []
  operands : List String := []

/-- The name and the value of an argument such as `--name=value`. -/
def splitOption (argument : String) : String × Option String :=
  let name := argument.toList.takeWhile (· != '=')
  match argument.toList.drop name.length with
  | _ :: value => (String.ofList name, some (String.ofList value))
  | [] => (argument, none)

/-- An argument that is read as an option: it begins with a dash and is longer. -/
def isOption (argument : String) : Bool :=
  match argument.toList with
  | '-' :: _ :: _ => true
  | _ => false

/-- Takes the arguments of a command apart; nothing if an option is unknown, lacks its value or has one
that it does not take.  The last value of an option stands. -/
def Options.read? (o : Options) : List String → Given → Option Given
  | [], given => some given
  | [argument], given =>
    if argument == "--" then some given
    else if isOption argument then
      let (name, value) := splitOption argument
      match value with
      | some value =>
        if o.valued.contains name then some { given with values := (name, value) :: given.values }
        else none
      | none =>
        if o.flags.contains name then some { given with flags := name :: given.flags } else none
    else some { given with operands := given.operands ++ [argument] }
  | argument :: next :: rest, given =>
    if argument == "--" then some { given with operands := given.operands ++ next :: rest }
    else if isOption argument then
      let (name, value) := splitOption argument
      match value with
      | some value =>
        if o.valued.contains name then
          o.read? (next :: rest) { given with values := (name, value) :: given.values }
        else none
      | none =>
        if o.flags.contains name then
          o.read? (next :: rest) { given with flags := name :: given.flags }
        else if o.valued.contains name then
          o.read? rest { given with values := (name, next) :: given.values }
        else none
    else o.read? (next :: rest) { given with operands := given.operands ++ [argument] }

/-- The smallest timeout that can be asked for. -/
def leastTimeout : Int := 1

/-- The timeout that a text gives. -/
def readTimeout (text : String) : Except Refusal Int :=
  match Number.readInteger text.toList with
  | .ok ms => if ms < leastTimeout then .error .misuse else .ok ms
  | .error _ => .error .misuse

/-- A path that may be looked at. -/
def readPath (text : String) : Except Refusal String :=
  if (PurePath.parse text).hasNull then .error .nullInPath else .ok text

/-- What the options with a value say. -/
structure Choices where
  root : Option String := none
  timeoutMs : Option Int := none

/-- Takes in the value of an option. -/
def Choices.choose (c : Choices) (name value : String) : Except Refusal Choices :=
  if name == "--root" then (readPath value).map fun root => { c with root := some root }
  else (readTimeout value).map fun ms => { c with timeoutMs := some ms }

/-- The choices among the options, each by its last value. -/
def Given.choices (given : Given) : Except Refusal Choices :=
  (given.values.reverse.map Prod.fst).eraseDups.foldlM
    (fun c name => c.choose name ((given.values.lookup name).getD "")) {}

/-- The source that is analyzed when none is given. -/
def defaultSource : String := "\x7b sigmaProp(HEIGHT > 100) \x7d"

/-- The one operand, which is a file. -/
def Given.file (given : Given) : Except Refusal String :=
  match given.operands with
  | [] => .error .misuse
  | [file] => readPath file
  | file :: _ => (readPath file).bind fun _ => .error .misuse

/-- Takes the arguments of a command apart. -/
def Options.read (o : Options) (arguments : List String) : Except Refusal Given :=
  match o.read? arguments {} with
  | some given => .ok given
  | none => .error .misuse

/-- Reads the arguments of a command. -/
def readCommand (name : String) (arguments : List String) : Except Refusal Invocation :=
  match name with
  | "check" => do
    let given ← ({ flags := ["--heuristics-only", "--strict"],
                   valued := ["--root", "--timeout-ms"] } : Options).read arguments
    let choices ← given.choices
    let file ← given.file
    return .check file choices.root choices.timeoutMs
      (given.flags.contains "--heuristics-only") (given.flags.contains "--strict")
  | "parse" => do
    let given ← ({ valued := ["--root", "--timeout-ms"] } : Options).read arguments
    let choices ← given.choices
    match given.operands with
    | [] => return .parse defaultSource choices.root choices.timeoutMs
    | [source] => return .parse source choices.root choices.timeoutMs
    | _ => .error .misuse
  | "lint" => do
    let given ← ({} : Options).read arguments
    return .lint (← given.file)
  | "serve" => do
    let given ← ({} : Options).read arguments
    if given.operands.isEmpty then return .serve else .error .misuse
  | _ => .error .misuse

/-- An argument that only asks for more to be logged. -/
def isVerbosity (argument : String) : Bool :=
  argument == "--verbose" ||
    match argument.toList with
    | '-' :: 'v' :: rest => rest.all (· == 'v')
    | _ => false

/-- Reads a command line: options that hold for every command, the name of a command and its
arguments. -/
def Invocation.ofArguments : List String → Except Refusal Invocation
  | [] => .error .misuse
  | argument :: rest =>
    if isVerbosity argument then Invocation.ofArguments rest
    else if argument == "--" then
      match rest with
      | name :: arguments => readCommand name arguments
      | [] => .error .misuse
    else readCommand argument rest

end AnalyzerBridge.CommandLine
