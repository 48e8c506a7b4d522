/-
Execution of scripts.

`execute` runs a command on a host and answers with its `Trace`: when and how it
ends, what it writes, and which streams its descendants hold open.

Design notes: `runFor` is defined with fuel, which bounds the nesting of commands
and the rounds of loops; a run that uses it up counts as one that never ends.

Support for runs: nothing is proved about this module, and no proof rests on it.
-/
import AnalyzerBridge.Shell.World

namespace AnalyzerBridge.Shell

/-! ### Redirections -/

/-- The sink of a descriptor. -/
def sinkOf? (m : Machine) (descriptor : String) : Option Sink :=
  match descriptor with
  | "1" => some m.out
  | "2" => some m.err
  | "0" => some .nowhere
  | "-" => some .nowhere
  | _ => none

/-- Leads a descriptor to a sink. -/
def Machine.lead (m : Machine) (descriptor : Nat) (sink : Sink) : Machine :=
  match descriptor with
  | 1 => { m with out := sink }
  | 2 => { m with err := sink }
  | _ => m

/-- The sink of a file that is written; nothing if it cannot be created. -/
def fileSink? (m : Machine) (w : World) (path : String) : Option Sink :=
  match path with
  | "/dev/stdout" => some m.out
  | "/dev/stderr" => some m.err
  | _ =>
    match w.entry path, w.entry (PurePath.parse path).parent.text with
    | .file, _ => some .nowhere
    | .absent, .folder => some .nowhere
    | _, _ => none

/-- Carries out one redirection; false if it fails. -/
def redirect (w : World) (run : Runner) (r : Redirection) : StateM Machine Bool := do
  match r with
  | .duplicate descriptor source =>
    let source ← expandText run source
    match sinkOf? (← get) source with
    | some sink =>
      modify fun m => m.lead descriptor sink
      return true
    | none =>
      complain (source ++ ": Bad file descriptor")
      return false
  | .write descriptor file =>
    let path ← expandText run file
    match fileSink? (← get) w path with
    | some sink =>
      modify fun m => m.lead descriptor sink
      return true
    | none =>
      complain ("cannot create " ++ path ++ ": Directory nonexistent")
      return false
  | .read file =>
    let path ← expandText run file
    match fileFeed? (← get) path with
    | some f =>
      modify fun m => { m with input := f }
      return true
    | none =>
      complain ("cannot open " ++ path ++ ": No such file")
      return false

/-- Carries out redirections in order, up to one that fails. -/
def redirectAll (w : World) (run : Runner) : List Redirection → StateM Machine Bool
  | [] => return true
  | r :: rest => do
    if ← redirect w run r then redirectAll w run rest else return false

/-! ### Commands by name -/

/-- The letters of the options at the front of the arguments of a shell, and the rest. -/
def shellOptions : List String → List Char × List String
  | [] => ([], [])
  | a :: rest =>
    match a.toList with
    | '-' :: c :: letters =>
      let p := shellOptions rest
      (c :: letters ++ p.1, p.2)
    | _ => ([], a :: rest)

/-- The status of a shell whose script is not there. -/
def missingScriptStatus : Nat := 2

/-- A shell of its own with the given arguments. -/
def runShell (run : Runner) (shellName : String) (args : List String) : Run := do
  let (options, operands) := shellOptions args
  modify fun m => { m with name := shellName, args := [], line := 0 }
  if options.contains 'c' then
    match operands with
    | [] => misuse "-c requires an argument" true
    | script :: operands =>
      modify fun m => { m with name := operands.head?.getD shellName, args := operands.drop 1 }
      runScript run script.toList
  else
    match operands with
    | [] => return .next
    | path :: _ =>
      complain ("cannot open " ++ path ++ ": No such file")
      let _ ← finish missingScriptStatus
      return .leave

/-- Runs the action for leaving the shell, once. -/
def runExitTrap (run : Runner) (flow : Flow) : Run := do
  let m ← get
  match flow, m.traps.lookup 0 with
  | .next, some action | .leave, some action =>
    set { m with traps := m.traps.filter fun t => t.1 != 0 }
    match ← runScript run action.toList with
    | .next =>
      modify fun after => { after with status := m.status }
      return flow
    | other => return other
  | _, _ => return flow

/-- Runs a shell as a child.  Its death by a signal is reported. -/
def runChildShell (run : Runner) (shellName : String) (args : List String) : Run := do
  let m ← get
  let flow ← inSubshell do
    match ← runExitTrap run (← runShell run shellName args) with
    | .killed signal =>
      modify fun m => { m with status := 128 + signal }
      match deathNotice? signal with
      | some notice => modify fun inner => inner.write m.err (bytesOf (notice ++ "\n")) inner.clock
      | none => pure ()
      return .next
    | flow => return flow
  return flow

/-- The status of a command that is found but cannot be run, and of one that is not found. -/
def unrunnableStatus : Nat := 126

/-- The status of a command that is not found. -/
def unknownStatus : Nat := 127

/-- Runs a program of the system. -/
def runProgram (run : Runner) (command program : String) (args : List String) : Run :=
  if shellNames.contains program then runChildShell run command args
  else if utilities.contains program then runUtility program args
  else if program == "echo" && command.toList.contains '/' then do
    print (bytesOf (" ".intercalate args ++ "\n"))
    finish 0
  else (builtin? run program args).getD (finish unknownStatus)

/-- Runs a command by its name. -/
def runNamed (w : World) (run : Runner) (command : String) (args : List String) : Run := do
  match builtin? run command args with
  | some builtin => builtin
  | none =>
    match w.find command with
    | .program program => runProgram run command program args
    | .file | .folder =>
      complain (command ++ ": Permission denied")
      finish unrunnableStatus
    | _ =>
      complain (command ++ ": not found")
      finish unknownStatus

/-- Runs a command in place of the shell. -/
def runInstead (w : World) (run : Runner) (command : String) (args : List String) : Run := do
  match w.find command with
  | .program program =>
    let flow ← if shellNames.contains program then runShell run command args
      else runProgram run command program args
    return if flow = .next then .leave else flow
  | _ =>
    match ← runNamed w run command args with
    | .next => return .leave
    | flow => return flow

/-- Runs the fields of a simple command. -/
def runFields (w : World) (run : Runner) (fields : List String) : Run :=
  match fields with
  | [] => pure .next
  | "exec" :: command :: args => runInstead w run command args
  | "exec" :: [] => finish 0
  | "command" :: command :: args => runNamed w run command args
  | "env" :: command :: args => runNamed w run command args
  | command :: args => runNamed w run command args

/-! ### Composed commands -/

/-- Runs a simple command.  Its assignments hold while it runs, or for good if it has no words. -/
def runSimple (w : World) (run : Runner) (line : Nat) (assignments : List (String × Word))
    (words : List Word) : Run := do
  modify fun m => { m with line := line }
  let fields ← expandWords run words
  let before ← get
  if fields.isEmpty then modify fun m => { m with status := 0 }
  for (name, value) in assignments do
    let text ← expandText run value
    modify fun m => m.assign name text
  let flow ← runFields w run fields
  if !fields.isEmpty && !assignments.isEmpty then
    modify fun m => { m with bindings := before.bindings }
  return flow

/-- A command that is `exec` without a command: its redirections hold from then on. -/
def isBareExec : Command → Bool
  | .simple _ [] [w] => plainText? w == some "exec"
  | _ => false

/-- Runs a command with redirections. -/
def runRedirected (w : World) (run : Runner) (line : Nat) (body : Command) (rs : List Redirection) :
    Run := do
  let outer ← get
  modify fun m => { m with line := line }
  if ← redirectAll w run rs then
    if isBareExec body then finish 0
    else
      let flow ← run body
      let readsFile := rs.any fun r => r matches .read _
      modify fun m => { m with
        out := outer.out, err := outer.err, input := if readsFile then outer.input else m.input }
      return flow
  else
    modify fun m => { m with out := outer.out, err := outer.err, input := outer.input }
    finish misuseStatus

/-- The time by which all holds on a sink have ended, if they do. -/
def holdsEnd (holds : List Hold) (sink : Sink) (since : Option Time) : Option Time :=
  holds.foldl
    (fun acc h =>
      if h.sink = sink then
        match acc, h.ends with
        | some a, some b => some (max a b)
        | _, _ => none
      else acc)
    since

/-- Runs two commands at the same time, the output of the first being the input of the second.  A command
that writes without end is stopped by the end of its reader. -/
def runPipe (run : Runner) (left right : Command) : Run := do
  let start ← get
  let sink := Sink.pipe start.issued
  set { start with issued := start.issued + 1, writes := [], holds := [], floods := [], out := sink }
  let leftFlow ← inSubshell (run left)
  let l ← get
  let pattern := (l.floods.lookup sink).getD []
  let leftEnds := if leftFlow = .forever then none else some l.clock
  let feed : Feed :=
    { chunks := l.collected sink none, pattern := pattern, ends := holdsEnd l.holds sink leftEnds }
  set { l with
    clock := start.clock, writes := [], holds := [], floods := [], out := start.out, input := feed }
  let rightFlow ← inSubshell (run right)
  let r ← get
  let leftEnds := if leftFlow = .forever && !pattern.isEmpty then some r.clock else leftEnds
  set { r with
    input := start.input, out := start.out, clock := max r.clock (leftEnds.getD r.clock)
    writes := r.writes ++ l.writes.filter (fun (x : Write) => x.sink ≠ sink) ++ start.writes
    holds := r.holds ++ l.holds.filter (fun (x : Hold) => x.sink ≠ sink) ++ start.holds
    floods := r.floods ++ l.floods.filter (fun (x : Sink × List UInt8) => x.1 ≠ sink) ++ start.floods }
  match leftFlow, rightFlow with
  | .killed signal, _ => return .killed signal
  | _, .killed signal => return .killed signal
  | _, .forever => return .forever
  | _, _ => return if leftEnds.isNone then .forever else .next

/-- Runs a command in the background. -/
def runInBackground (w : World) (run : Runner) (body : Command) : Run := do
  let start ← get
  let number := shellNumber + start.issued + 1
  set { start with
    issued := start.issued + 1, job := number, jobs := [], writes := [], holds := [], floods := []
    input := ({} : Feed) }
  let (ready, body) ← match body with
    | .redirected _ inner rs => do pure (← redirectAll w run rs, inner)
    | body => pure (true, body)
  let beginning ← get
  let flow ← if ready then inSubshell (run body) else finish misuseStatus
  let b ← get
  let ends := if flow = .forever then none else some b.clock
  let own : List Hold := [⟨beginning.out, ends, number⟩, ⟨beginning.err, ends, number⟩]
  set { start with
    issued := b.issued
    jobs := ⟨number, ends, b.status⟩ :: start.jobs
    writes := b.writes ++ start.writes
    holds := own ++ b.holds ++ start.holds
    floods := b.floods ++ start.floods }
  finish 0

/-- Runs the body of a loop for each field. -/
def runEach (run : Runner) (name : String) (body : Command) : List String → Run
  | [] => return .next
  | field :: rest => do
    modify fun m => m.assign name field
    match ← run body with
    | .next | .continueLoop => runEach run name body rest
    | .breakLoop => return .next
    | flow => return flow

/-- Runs a command, given how the commands inside it are run. -/
def runCommand (w : World) (run : Runner) : Command → Run
  | .skip => return .next
  | .simple line assignments words => runSimple w run line assignments words
  | .redirected line body rs => runRedirected w run line body rs
  | .subshell body => inSubshell do runExitTrap run (← run body)
  | .branch condition whenTrue whenFalse => do
    match ← run condition with
    | .next =>
      if (← get).status = 0 then run whenTrue
      else
        modify fun m => { m with status := 0 }
        run whenFalse
    | flow => return flow
  | .loop expected condition body => do
    match ← run condition with
    | .next =>
      if ((← get).status == 0) == expected then
        match ← run body with
        | .next | .continueLoop => run (.loop expected condition body)
        | .breakLoop => finish 0
        | flow => return flow
      else finish 0
    | flow => return flow
  | .each name words body => do
    let fields ← expandWords run words
    runEach run name body fields
  | .pipe left right => runPipe run left right
  | .negated body => do
    match ← run body with
    | .next => finish (if (← get).status = 0 then 1 else 0)
    | flow => return flow
  | .andThen left right => do
    match ← run left with
    | .next => if (← get).status = 0 then run right else return .next
    | flow => return flow
  | .orElse left right => do
    match ← run left with
    | .next => if (← get).status = 0 then return .next else run right
    | flow => return flow
  | .sequence first second => do
    match ← run first with
    | .next => run second
    | flow => return flow
  | .background body => runInBackground w run body

/-- Runs a command with fuel. -/
def runFor (w : World) : (fuel : Nat) → Runner
  | 0, _ => return .forever
  | fuel + 1, c => runCommand w (runFor w fuel) c

/-! ### Whole runs -/

/-- A finished account of a run. -/
structure Trace where
  ends : Option (Time × Int)
  machine : Machine

/-- The nesting of commands and the rounds of loops that a run may have. -/
def executionFuel : Nat := 20000

/-- How long after its start a program begins to act. -/
def startLatency : Time := 1000000

/-- Runs a program with its arguments on a host. -/
def execute (w : World) (command program : String) (args : List String) : Trace :=
  let run := runFor w executionFuel
  let body : Run := do
    let flow ← if shellNames.contains program then runShell run command args
      else runProgram run command program args
    runExitTrap run flow
  let (flow, m) := body.run { name := command, clock := startLatency }
  let ends := match flow with
    | .forever => none
    | .killed signal => some (m.clock, -(signal : Int))
    | _ => some (m.clock, (m.status : Int))
  ⟨ends, m⟩

end AnalyzerBridge.Shell
