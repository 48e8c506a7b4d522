/-
The state of a running shell.

A `Machine` has a clock of its own.  What it and its children write is recorded
with the time of writing; a child in the background also holds its streams open
until it ends.

Design notes: children in the background run on a copy of the machine, so their
writes may be later than its clock; `collected` puts them in order of time.

Support for runs: nothing is proved about this module, and no proof rests on it.
-/
import AnalyzerBridge.Shell.Feed
import AnalyzerBridge.Shell.Formatting
import AnalyzerBridge.Shell.Syntax

namespace AnalyzerBridge.Shell

/-- Where output goes: to one of the two streams of the run, to a pipe between commands, or nowhere. -/
inductive Sink where
  | stdout
  | stderr
  | pipe (number : Nat)
  | nowhere
  deriving DecidableEq

/-- Bytes written. -/
structure Write where
  time : Time
  sink : Sink
  bytes : List UInt8
  job : Nat

/-- A stream held open by a job until it ends, if it does. -/
structure Hold where
  sink : Sink
  ends : Option Time
  job : Nat

/-- A child in the background. -/
structure Job where
  number : Nat
  ends : Option Time
  status : Nat

/-- The number under which a shell knows itself. -/
def shellNumber : Nat := 4242

/-- A shell in the course of a run.  Job 0 is the shell itself. -/
structure Machine where
  name : String
  args : List String := []
  clock : Time := 0
  status : Nat := 0
  line : Nat := 1
  bindings : List (String × String) := []
  traps : List (Nat × String) := []
  input : Feed := {}
  out : Sink := .stdout
  err : Sink := .stderr
  job : Nat := 0
  jobs : List Job := []
  issued : Nat := 0
  writes : List Write := []
  holds : List Hold := []
  floods : List (Sink × List UInt8) := []

/-- How a command ends: the shell goes on, leaves with its status, is killed by a signal, or the command
never ends. -/
inductive Flow where
  | next
  | leave
  | killed (signal : Nat)
  | forever
  | breakLoop
  | continueLoop
  deriving DecidableEq

/-- A command in execution. -/
abbrev Run := StateM Machine Flow

/-- Executes the commands inside a command. -/
abbrev Runner := Command → Run

namespace Machine

/-- Records a write. -/
def write (m : Machine) (sink : Sink) (bytes : List UInt8) (time : Time) : Machine :=
  if bytes.isEmpty || sink = .nowhere then m
  else { m with writes := ⟨time, sink, bytes, m.job⟩ :: m.writes }

/-- The chunks written to a sink before a time, in order of time. -/
def collected (m : Machine) (sink : Sink) (before : Option Time) : List (Time × List UInt8) :=
  let written := m.writes.reverse.filter fun w =>
    w.sink = sink && before.all fun t => w.time < t
  (written.map fun w => (w.time, w.bytes)).mergeSort fun a b => a.1 ≤ b.1

/-- The value of a variable. -/
def lookup? (m : Machine) (name : String) : Option String :=
  m.bindings.lookup name

/-- Sets a variable. -/
def assign (m : Machine) (name value : String) : Machine :=
  { m with bindings := (name, value) :: m.bindings.filter fun v => v.1 != name }

/-- The value of a parameter that has one. -/
def parameter? (m : Machine) (name : String) : Option String :=
  match name with
  | "@" | "*" => some (" ".intercalate m.args)
  | "#" => some (toString m.args.length)
  | "?" => some (toString m.status)
  | "$" => some (toString shellNumber)
  | "!" => m.jobs.head?.map fun j => toString j.number
  | "0" => some m.name
  | _ =>
    match name.toNat? with
    | some n => m.args[n - 1]?
    | none => m.lookup? name

end Machine

/-- Ends a command with a status. -/
def finish (status : Nat) : Run := do
  modify fun m => { m with status := status }
  return .next

/-- Prints bytes. -/
def print (bytes : List UInt8) : StateM Machine Unit :=
  modify fun m => m.write m.out bytes m.clock

/-- Prints a message on the error stream. -/
def report (message : String) : StateM Machine Unit :=
  modify fun m => m.write m.err (bytesOf (message ++ "\n")) m.clock

/-- Prints a message of the shell itself, with its name and line. -/
def complain (message : String) : StateM Machine Unit := do
  let m ← get
  report (m.name ++ ": " ++ toString m.line ++ ": " ++ message)

/-- Moves the clock to a time, if that is later; without a time the command never ends. -/
def waitUntil (time : Option Time) (status : Nat) : Run := do
  match time with
  | none => return .forever
  | some t =>
    modify fun m => { m with clock := max m.clock t }
    finish status

/-- Passes a stream on to the output. -/
def passOn (f : Feed) : Run := do
  modify fun m =>
    let m := f.chunks.foldl (fun m c => m.write m.out c.2 (max m.clock c.1)) m
    if f.pattern.isEmpty then m else { m with floods := (m.out, f.pattern) :: m.floods }
  waitUntil (if f.pattern.isEmpty then f.ends else none) 0

/-- A subshell: its changes of the state stay inside, its output and its time do not. -/
def inSubshell (body : Run) : Run := do
  let outer ← get
  set { outer with traps := outer.traps.filter fun t => t.2 == "" }
  let flow ← body
  modify fun m => { m with
    name := outer.name, args := outer.args, bindings := outer.bindings, traps := outer.traps,
    input := outer.input, out := outer.out, err := outer.err, jobs := outer.jobs }
  match flow with
  | .killed signal => return .killed signal
  | .forever => return .forever
  | _ => return .next

end AnalyzerBridge.Shell
