/-
Bounded runs of one child process.

`supervise` starts a command, waits until it exits, its deadline expires or its
token is cancelled, and releases it on every way out: a child that is still
running is killed, its readers are joined and its streams closed.

Design notes: everything that belongs to the host is an operation of `Host`, so
that the run is one function for a real child and for a scripted one.  In each
round of the wait loop cancellation is looked at before the exit, and the exit
before the deadline.  Rounds are counted: `roundsFor` is the number that a run
needs when every wait moves the clock by at least the interval waited.
-/
import AnalyzerBridge.Act
import AnalyzerBridge.Deadline
import AnalyzerBridge.Log
import AnalyzerBridge.Outcome

namespace AnalyzerBridge.Supervision

/-- A stream between the bridge and a child. -/
inductive Stream where
  | stdin
  | stdout
  | stderr
  deriving DecidableEq

/-- Why a child could not be started: the host refused, with a detail and its full wording, or the
arguments were rejected. -/
inductive StartFault where
  | refused (detail wording : String)
  | rejected (wording : String)
  deriving DecidableEq

/-- The refusal of a host that gives a number, a detail and possibly the file it is about. -/
def StartFault.numbered (number detail : String) (file : Option String) : StartFault :=
  .refused detail
    ("[Errno " ++ number ++ "] " ++ detail ++ ((file.map fun f => ": " ++ f).getD ""))

/-- What a child says about its cancellation. -/
structure Cancellation (σ : Type) where
  cancelled : Act σ Bool
  pause : (nanos : Nat) → Act σ Unit

/-- The operations of a host on the one child of a run. -/
structure Host (σ : Type) where
  now : Act σ Int
  start : (argv : List String) → Act σ (Option StartFault)
  pidText : Act σ String
  poll : Act σ (Option Int)
  returncode : Act σ (Option Int)
  wait : (nanos : Nat) → Act σ Bool
  kill : Act σ Unit
  killGroup : Act σ Unit
  joinReaders : Act σ Bool
  close : Stream → Act σ Unit
  collected : Act σ (List UInt8 × List UInt8)
  note : LogRecord → Act σ Unit
  cancellation : Option (Cancellation σ)

/-- How the wait for a child ended. -/
inductive Ending where
  | exited
  | timedOut
  | cancelled
  deriving DecidableEq

/-- The longest wait between two looks at the child, in nanoseconds. -/
def pollNanos : Nat := 50000000

/-- How long a killed child is waited for, in nanoseconds. -/
def graceNanos : Nat := 2000000000

variable {σ : Type}

/-- The token of the run, if there is one, is cancelled. -/
def isCancelled (host : Host σ) : Act σ Bool :=
  match host.cancellation with
  | some c => c.cancelled
  | none => pure false

/-- Waits for the exit of the child, or on the token if there is one. -/
def rest (host : Host σ) (nanos : Nat) : Act σ Unit :=
  match host.cancellation with
  | some c => c.pause nanos
  | none => do let _ ← host.wait nanos

/-- Looks at the child: at its token first, then at its exit and then at the deadline. -/
def glance (host : Host σ) (deadline : Deadline) : Act σ (Option Ending) := do
  if ← isCancelled host then
    return some .cancelled
  match ← host.poll with
  | some _ => return some .exited
  | none =>
    if deadline.expired (← host.now) then
      return some .timedOut
    return none

/-- Waits between two looks at the child. -/
def doze (host : Host σ) (deadline : Deadline) : Act σ Unit := do
  let remaining := deadline.remaining (← host.now)
  let _ ← Act.ofExcept (secondsOf remaining)
  rest host (min remaining pollNanos)

/-- Looks at the child until the wait ends, for a number of rounds at most. -/
def waitLoop (host : Host σ) (deadline : Deadline) : (rounds : Nat) → Act σ Ending
  | 0 => throw .unending
  | rounds + 1 => do
    match ← glance host deadline with
    | some ending => return ending
    | none =>
      doze host deadline
      waitLoop host deadline rounds

/-- A record of this module. -/
def record (level : Level) (message : String) : LogRecord :=
  ⟨level, .supervision, message⟩

/-- Kills a child that is still running. -/
def stopChild (host : Host σ) : Act σ Unit := do
  if (← host.poll).isNone then
    host.killGroup
    host.kill
    if !(← host.wait graceNanos) then
      host.note (record .warning
        ("analyzer pid=" ++ (← host.pidText) ++ " did not exit after kill"))

/-- Joins the readers of a child.  Those that a descendant keeps alive end with its group. -/
def endReaders (host : Host σ) : Act σ Unit := do
  if !(← host.joinReaders) then
    host.note (record .warning
      ("analyzer pid=" ++ (← host.pidText) ++ " left descendants holding its pipes"))
    host.killGroup
    let _ ← host.joinReaders

/-- Closes the streams of a child. -/
def closeStreams (host : Host σ) : Act σ Unit := do
  host.close .stdin
  host.close .stdout
  host.close .stderr

/-- Stops a child that is still running, joins its readers and closes its streams. -/
def release (host : Host σ) : Act σ Unit := do
  stopChild host
  endReaders host
  closeStreams host

/-- The number of rounds that a run of a number of milliseconds needs. -/
def roundsFor (millis : Int) : Nat :=
  (millis.toNat + 49) / 50 + 1

/-- The code of a child as a record shows it. -/
def codeText (code : Option Int) : String :=
  ((code.map Value.int).getD .null).spelled

/-- The record on the end of a run. -/
def endRecord (ending : Ending) (code : Option Int) (pid elapsed timeout : String) : LogRecord :=
  match ending with
  | .timedOut => record .warning
      ("analyzer pid=" ++ pid ++ " killed after " ++ elapsed ++ "ms (timeout " ++ timeout ++ "ms)")
  | .cancelled => record .warning ("analyzer pid=" ++ pid ++ " cancelled after " ++ elapsed ++ "ms")
  | .exited => record .debug
      ("analyzer pid=" ++ pid ++ " exited code=" ++ codeText code ++ " after " ++ elapsed ++ "ms")

/-- What a run that ended so leaves behind.  The code of a child that did not exit by itself is not
reported. -/
def rawOutput (ending : Ending) (code : Option Int) (streams : List UInt8 × List UInt8) :
    RawOutput :=
  { stdout := streams.1
    stderr := streams.2
    exitCode := if ending = .exited then code else none
    timedOut := ending == .timedOut
    cancelled := ending == .cancelled }

/-- Starts a child, or fails with the reason why it could not be started. -/
def start (host : Host σ) (command : String) (args : List String) : Act σ Unit := do
  match ← host.start (command :: args) with
  | none => pure ()
  | some (.refused detail wording) =>
    host.note (record .warning ("analyzer spawn failed: " ++ command ++ " (" ++ wording ++ ")"))
    throw (.spawn ⟨command, if detail = "" then wording else detail⟩)
  | some (.rejected wording) =>
    host.note (record .warning
      ("analyzer spawn rejected argv: " ++ command ++ " (" ++ wording ++ ")"))
    throw (.spawn ⟨command, wording⟩)

/-- Starts a child and sets its deadline; also gives the mark right after the start. -/
def launch (host : Host σ) (command : String) (args : List String) (millis : Int) :
    Act σ (Int × Deadline) := do
  start host command args
  let startedAt ← host.now
  host.note (record .debug
    ("analyzer started pid=" ++ (← host.pidText) ++ " argv0=" ++ command))
  host.close .stdin
  let deadline ← Act.ofExcept (Deadline.ofMillis (← host.now) (.int millis))
  return (startedAt, deadline)

/-- Reports on a run that ended so, and collects what it leaves behind. -/
def conclude (host : Host σ) (ending : Ending) (startedAt : Int) (timeout : Value) :
    Act σ RawOutput := do
  let elapsed := ((← host.now) - startedAt) / nanosPerMilli
  let code ← host.returncode
  host.note (endRecord ending code (← host.pidText) (toString elapsed) timeout.spelled)
  return rawOutput ending code (← host.collected)

/-- The milliseconds that a run of a command may take; without a command or a positive number there is no
run. -/
def allowance (command : String) (timeout : Value) : Except Failure Int :=
  if command = "" then .error (.breach .missingCommand)
  else
    match timeout.toInteger with
    | .error f => .error f
    | .ok millis => if millis ≤ 0 then .error (.breach (.nonPositiveTimeout timeout)) else .ok millis

/-- Runs a command with its arguments once, for a number of milliseconds at most, and looks at the child
a number of times at most. -/
def superviseFor (host : Host σ) (rounds : Nat) (command : String) (args : List String)
    (timeout : Value) : Act σ RawOutput := do
  let millis ← Act.ofExcept (allowance command timeout)
  let (startedAt, deadline) ← launch host command args millis
  let ending ← Act.ensuring (waitLoop host deadline rounds) (release host)
  conclude host ending startedAt timeout

/-- Runs a command with its arguments once, for a number of milliseconds at most. -/
def supervise (host : Host σ) (command : String) (args : List String) (timeout : Value) :
    Act σ RawOutput :=
  superviseFor host (roundsFor (timeout.toInteger.toOption.getD 0)) command args timeout

end AnalyzerBridge.Supervision
