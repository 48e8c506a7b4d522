/-
A child whose streams are read while it is waited for.

Two readers drain the output streams of a child beside its run.  `Attended` holds
what surrounds such a run: the state of the host of the child, its two pipes, what
will happen at them, in turns, and what has been done to the child so far.
`attendedHost` gives the pipes a turn before every operation on the child, and
writes the operation down.

Design notes: the host of the child is arbitrary, and so are its answers and
failures; what it collects is replaced by what the readers have read.  A stream that
is not there is a pipe whose reader is done from the start.
-/
import AnalyzerBridge.Supervision.Basic
import AnalyzerBridge.Supervision.Reader

namespace AnalyzerBridge.Supervision

/-- An output stream of a child with its reader, and the chunks that it has delivered. -/
structure Pipe where
  reader : Reader := {}
  delivered : List (List UInt8) := []
  closed : Bool := false

/-- Something that happens at a pipe: its reader asks, or is answered. -/
inductive Move where
  | ask
  | answer (read : Read)

/-- The chunks of an answer. -/
def Read.chunks : Read → List (List UInt8)
  | .bytes chunk => [chunk]
  | .refused => []

/-- The pipe after something happened at it.  A reader that is not waiting cannot be answered. -/
def Pipe.move (p : Pipe) : Move → Pipe
  | .ask => { p with reader := p.reader.ask p.closed }
  | .answer read =>
    if p.reader.phase = .waiting then
      { p with reader := p.reader.receive read, delivered := p.delivered ++ read.chunks }
    else p

/-- Something done to a child, with what it showed, or an attempt that failed. -/
inductive Deed where
  | started
  | consulted
  | polled (code : Option Int)
  | waited (ended : Bool)
  | killed
  | groupKilled
  | joined
  | closed (stream : Stream)
  | failed
  deriving DecidableEq

/-- What surrounds a run whose streams are read beside it: the state of the host, the pipes, what will
happen at them in each of their next turns, and what has been done to the child so far. -/
structure Attended (τ : Type) where
  stage : τ
  stdout : Pipe := {}
  stderr : Pipe := {}
  schedule : List (List Move × List Move) := []
  deeds : List Deed := []

variable {τ α : Type}

namespace Attended

/-- What surrounds the run after the next turn of the pipes. -/
def turn (a : Attended τ) : Attended τ :=
  { a with
    stdout := (a.schedule.headD ([], [])).1.foldl Pipe.move a.stdout
    stderr := (a.schedule.headD ([], [])).2.foldl Pipe.move a.stderr
    schedule := a.schedule.tail }

/-- A stream is closed. -/
def shut (stream : Stream) (a : Attended τ) : Attended τ :=
  match stream with
  | .stdin => a
  | .stdout => { a with stdout := { a.stdout with closed := true } }
  | .stderr => { a with stderr := { a.stderr with closed := true } }

end Attended

/-- An operation on the child after a turn of its pipes, written down as a deed. -/
def attend (deed : α → Deed) (op : Act τ α) : Act (Attended τ) α := fun a =>
  match op a.turn.stage with
  | (.ok x, stage) => (.ok x, { a.turn with stage := stage, deeds := a.turn.deeds ++ [deed x] })
  | (.error f, stage) => (.error f, { a.turn with stage := stage, deeds := a.turn.deeds ++ [.failed] })

/-- An operation that leaves the child alone. -/
def aside (op : Act τ α) : Act (Attended τ) α :=
  attend (fun _ => .consulted) op

/-- The host of a child whose streams are read beside its run. -/
def attendedHost (host : Host τ) : Host (Attended τ) where
  now := aside host.now
  start argv := attend (fun _ => .started) (host.start argv)
  pidText := aside host.pidText
  poll := attend .polled host.poll
  returncode := aside host.returncode
  wait nanos := attend .waited (host.wait nanos)
  kill := attend (fun _ => .killed) host.kill
  killGroup := attend (fun _ => .groupKilled) host.killGroup
  joinReaders := do
    let _ ← attend (fun _ => .joined) host.joinReaders
    Act.look fun a => a.stdout.reader.isDone && a.stderr.reader.isDone
  close stream := do
    attend (fun _ => .closed stream) (host.close stream)
    Act.change (Attended.shut stream)
  collected := do
    Act.change Attended.turn
    let stdout ← Act.look fun a => a.stdout.reader.sink
    Act.change Attended.turn
    let stderr ← Act.look fun a => a.stderr.reader.sink
    Act.change Attended.turn
    return (stdout, stderr)
  note r := aside (host.note r)
  cancellation := host.cancellation.map fun c => {
    cancelled := aside c.cancelled
    pause := fun nanos => aside (c.pause nanos) }

end AnalyzerBridge.Supervision
