/-
Rehearsed analyzer calls.

A `Script` says what an analyzer does while it is called and what it answers.
Meanwhile it may operate on the session, start further requests and pass on
notifications, each with a script of its own, to any depth.  `Script.invoker` is
the analyzer that follows a script and keeps a record of its calls.

Support for runs: nothing is proved about this module, and no proof rests on it.
-/
import AnalyzerBridge.Service.Basic

namespace AnalyzerBridge.Rehearsal

/-- How a rehearsed call ends: with output, with an empty output that says whether it was cancelled,
with a breach that reports the command, or with any other failure. -/
inductive Answer where
  | output (raw : RawOutput)
  | echoCancellation
  | breaks (reason : String)
  | fails (f : Failure)

mutual

/-- What an analyzer does while it is called, and how the call ends. -/
inductive Script where
  | mk (meanwhile : List Step) (answer : Answer)

/-- One thing done while an analyzer is called. -/
inductive Step where
  | session (step : Session.Step)
  | analyze (request : Request) (listens : Bool) (script : Script)
  | notify (notification : Service.Notification) (script : Script)

end

/-- How a document stands after a request: which request is in flight, and whether that one was the
newest. -/
structure Standing where
  running : Option String
  isCurrent : Bool
  deriving DecidableEq

/-- What a request came to: its outcome, what its own listener heard, and how its document stands, if
it has one. -/
structure Report where
  outcome : Except Failure Outcome
  heard : List (String × Outcome)
  standing : Option Standing

/-- What a step reports. -/
inductive Result where
  | reply (r : Session.Reply)
  | report (r : Report)
  | handled (r : Except Failure Unit)

/-- The record of a call: the state of its token and the results of its steps are those of the moment
before it answers. -/
structure CallRecord where
  call : Call
  cancelled : Bool := false
  meanwhile : List Result := []

/-- The record of a rehearsal. -/
structure Record where
  calls : List CallRecord := []
  heard : List (String × Outcome) := []
  heardByDefault : List (String × Bool) := []

/-- The workspace of a rehearsal. -/
abbrev Stage := Workspace Record

/-- Changes the record. -/
def onRecord (f : Record → Record) : Act Stage Unit :=
  Act.change fun w => { w with surroundings := f w.surroundings }

/-- A listener that records what it hears. -/
def listener : Listener Record := fun request outcome =>
  onRecord fun r => { r with heard := r.heard ++ [(request.id, outcome)] }

/-- A listener that records whom it heard of and whether that was a success. -/
def defaultListener : Listener Record := fun request outcome =>
  onRecord fun r =>
    { r with heardByDefault := r.heardByDefault ++ [(request.id, outcome.success)] }

/-- The output of an analyzer that reports nothing but whether it was cancelled. -/
def echoOutput (cancelled : Bool) : RawOutput :=
  { exitCode := some 0, cancelled := cancelled }

/-- The output of an analyzer that reports success. -/
def successOutput : RawOutput :=
  { stdout := Text.Utf8.encodeString "\x7b\"success\": true\x7d", exitCode := some 0 }

/-- Ends a call. -/
def conclude (call : Call) (token : Token) : Answer → Act Stage RawOutput
  | .output raw => pure raw
  | .echoCancellation => Act.look fun w => echoOutput (w.session.isCancelled token)
  | .breaks reason => throw (.breach (.stated reason [("command", .text call.command)]))
  | .fails f => throw f

/-- Runs a request and reports what it came to. -/
def observe (c : Coordinator Record) (request : Request) (listens : Bool) : Act Stage Report := do
  let before ← Act.look fun w => w.surroundings.heard
  onRecord fun r => { r with heard := [] }
  let outcome ← (c.analyze request (if listens then some listener else none)).attempt
  let heard ← Act.look fun w => w.surroundings.heard
  onRecord fun r => { r with heard := before }
  let session ← Act.look Workspace.session
  return ⟨outcome, heard, request.uri.map fun uri =>
    ⟨session.running uri, session.isCurrent uri request.id⟩⟩

/-- Starts the record of a call and answers with its place. -/
def openCall (call : Call) : Act Stage Nat := do
  let place ← Act.look fun w => w.surroundings.calls.length
  onRecord fun r => { r with calls := r.calls ++ [{ call := call }] }
  return place

/-- Completes the record of a call. -/
def closeCall (place : Nat) (token : Token) (meanwhile : List Result) : Act Stage Unit := do
  let cancelled ← Act.look fun w => w.session.isCancelled token
  onRecord fun r => { r with calls := r.calls.modify place fun c =>
    { c with cancelled := cancelled, meanwhile := meanwhile } }

/-- What rehearsed requests share: settings and default listener of the coordinator, and the service
that notifications go to. -/
structure Setting where
  coordinator : Act Stage (Coordinator Record) :=
    pure { settings := {}, invoke := fun _ _ => pure successOutput, listener := some defaultListener }
  service : Invoker Record → Service Record := fun invoke => { invoke := invoke }

mutual

/-- The analyzer that follows a script. -/
def Script.invoker (setting : Setting) : Script → Invoker Record
  | .mk meanwhile answer => fun call token => do
    let place ← openCall call
    let results ← runSteps setting meanwhile
    closeCall place token results
    conclude call token answer

/-- Runs the steps of a script in order. -/
def runSteps (setting : Setting) : List Step → Act Stage (List Result)
  | [] => pure []
  | step :: rest => do
    let result ← runStep setting step
    let results ← runSteps setting rest
    return result :: results

/-- Runs one step of a script. -/
def runStep (setting : Setting) : Step → Act Stage Result
  | .session step => fun w =>
    let (reply, session) := w.session.step step
    (.ok (.reply reply), { w with session := session })
  | .analyze request listens script => do
    let c ← setting.coordinator
    let report ← observe { c with invoke := script.invoker setting } request listens
    return .report report
  | .notify notification script => do
    let r ← ((setting.service (script.invoker setting)).handle notification).attempt
    return .handled r

end

end AnalyzerBridge.Rehearsal
