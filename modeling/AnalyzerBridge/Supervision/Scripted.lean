/-
A scripted child on a manual clock.

A `Script` says when a child exits and with which code, what its streams hold,
whether it can be killed, and when its token is cancelled.  `Stage` is the state
of a rehearsed run: the clock, which moves only in waits, and the record of what
was done to the child.
-/
import AnalyzerBridge.Supervision.Basic
import AnalyzerBridge.Supervision.Reader

namespace AnalyzerBridge.Supervision

/-- How a scripted child behaves.  Times are nanoseconds after its start. -/
structure Script where
  startFault : Option StartFault := none
  exitAfter : Option Int := some 0
  returnCode : Int := 0
  stdout : List UInt8 := []
  stderr : List UInt8 := []
  absent : List Stream := []
  unkillable : Bool := false
  broken : Bool := false

/-- Something done to a scripted child or to its token. -/
inductive Event where
  | spawned (argv : List String)
  | waited (nanos : Nat)
  | paused (nanos : Nat)
  | killed
  deriving DecidableEq

/-- The state of a rehearsed run. -/
structure Stage where
  clock : Int := 0
  startedAt : Option Int := none
  returned : Option Int := none
  closed : List Stream := []
  events : List Event := []
  log : List LogRecord := []

namespace Stage

/-- Appends an event. -/
def did (s : Stage) (e : Event) : Stage :=
  { s with events := s.events ++ [e] }

/-- Moves the clock. -/
def advance (s : Stage) (nanos : Nat) : Stage :=
  { s with clock := s.clock + nanos }

/-- Notices the exit of the child if its time has come. -/
def noticeExit (s : Stage) (script : Script) : Stage :=
  match s.returned, s.startedAt, script.exitAfter with
  | none, some started, some after =>
    if started + after ≤ s.clock then { s with returned := some script.returnCode } else s
  | _, _, _ => s

end Stage

/-- How many bytes a broken stream yields before it fails. -/
def brokenBytes : Nat := 3

/-- What a stream of a scripted child answers to its reader.  A stream that is not there has none. -/
def Script.answers (script : Script) (stream : Stream) (bytes : List UInt8) : List Read :=
  if script.absent.contains stream then []
  else if script.broken then [.bytes (bytes.take brokenBytes), .refused]
  else (pieces bytes).map .bytes ++ [.bytes []]

/-- What is read from a stream of a scripted child. -/
def Script.reads (script : Script) (stream : Stream) (bytes : List UInt8) : List UInt8 :=
  (Reader.drain (script.answers stream bytes)).sink

/-- The code of a child that was killed. -/
def killedCode : Int := -9

/-- The number under which a scripted child runs. -/
def scriptedPid : String := "4242"

/-- The token of a rehearsed run, cancelled once the clock reaches a mark. -/
def scriptedCancellation (mark : Option Int) : Cancellation Stage where
  cancelled := Act.look fun s => mark.any fun m => m ≤ s.clock
  pause nanos := Act.change fun s => (s.did (.paused nanos)).advance nanos

/-- The host of a scripted child. -/
def scriptedHost (script : Script) (cancellation : Option (Cancellation Stage)) : Host Stage where
  now := Act.look Stage.clock
  start argv := fun s =>
    match script.startFault with
    | some fault => (.ok (some fault), s)
    | none => (.ok none, { s.did (.spawned argv) with startedAt := some s.clock })
  pidText := pure scriptedPid
  poll := fun s =>
    let s := s.noticeExit script
    (.ok s.returned, s)
  returncode := Act.look Stage.returned
  wait nanos := fun s =>
    let s := (s.did (.waited nanos)).noticeExit script
    if s.returned.isSome then (.ok true, s)
    else
      let s := (s.advance nanos).noticeExit script
      (.ok s.returned.isSome, s)
  kill := Act.change fun s =>
    let s := s.did .killed
    if script.unkillable || s.returned.isSome then s else { s with returned := some killedCode }
  killGroup := pure ()
  joinReaders := pure true
  close stream := Act.change fun s =>
    if script.absent.contains stream then s else { s with closed := stream :: s.closed }
  collected := pure (script.reads .stdout script.stdout, script.reads .stderr script.stderr)
  note r := Act.change fun s => { s with log := s.log ++ [r] }
  cancellation := cancellation

/-- A wait as it is recorded: its length in seconds. -/
def secondsText (nanos : Nat) : String :=
  match secondsOf nanos with
  | .ok x => x.text
  | .error _ => ""

end AnalyzerBridge.Supervision
