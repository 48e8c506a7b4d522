/-
Supervised runs of real programs.

`host` is the host of one child process: its trace is computed when it starts,
and the clock of the supervision then tells how much of it has happened.  When
the group of the child is killed, what would have come later is lost.
`invoker` runs the analyzer of a coordinator this way.

Support for runs: nothing is proved about this module, and no proof rests on it.
-/
import AnalyzerBridge.Coordinator
import AnalyzerBridge.Shell.Execution
import AnalyzerBridge.Supervision.Basic

namespace AnalyzerBridge

/-- A number of seconds as nanoseconds, cut; nothing if it is negative or not finite. -/
def nanosOf? (seconds : Binary64) : Option Nat :=
  match seconds with
  | .finite false m e =>
    let scaled := m * nanosPerSecond
    some (if 0 ≤ e then scaled * Nat.pow 2 e.toNat else scaled / Nat.pow 2 (-e).toNat)
  | _ => none

namespace Shell

open Supervision (StartFault Stream Host Cancellation)

/-- A child process in the course of its run. -/
structure Child where
  clock : Time := 0
  trace : Trace := ⟨none, { name := "" }⟩
  killedAt : Option Time := none
  log : List LogRecord := []

/-- How long the readers of a child are waited for, in seconds. -/
def readerSeconds : Binary64 := .finite false 2 0

/-- How long the readers of a child are waited for, in nanoseconds. -/
def readerNanos : Nat := (nanosOf? readerSeconds).getD 0

/-! ### Starting -/

/-- The longest argument that a program takes, in bytes. -/
def longestArgument : Nat := 131071

/-- The most room that all words of a program take together, in bytes. -/
def mostArguments : Nat := 2097152

/-- The words of a program take more room than there is.  Each takes its bytes, a closing one and an
address. -/
def isTooLong (words : List String) : Bool :=
  words.any (fun a => longestArgument < a.utf8ByteSize) ||
    mostArguments < words.foldr (fun a size => a.utf8ByteSize + 9 + size) 0

/-- Why an entry cannot be started as a program. -/
def Entry.startFault? (e : Entry) (command : String) : Option StartFault :=
  let numbered := fun number detail => StartFault.numbered number detail (some (Text.quoted command))
  match e with
  | .program _ => none
  | .absent => some (numbered "2" "No such file or directory")
  | .folder | .file => some (numbered "13" "Permission denied")
  | .beneathFile => some (numbered "20" "Not a directory")
  | .tooLong => some (numbered "36" "File name too long")

/-- Why a program cannot be started with the given words. -/
def startFault? (w : World) (command : String) (args : List String) : Option StartFault :=
  if (command :: args).any fun a => a.toList.contains '\x00' then some (.rejected embeddedNull)
  else
    match (w.find command).startFault? command with
    | some fault => some fault
    | none =>
      if isTooLong (command :: args) then
        some (.numbered "7" "Argument list too long" (some (Text.quoted command)))
      else none

/-! ### Running -/

namespace Child

/-- The time and the code of the end of the process, if it has ended. -/
def ending? (c : Child) : Option (Time × Int) :=
  let own := c.trace.ends.filter fun e => e.1 ≤ c.clock
  match own, c.killedAt with
  | some e, some k => if e.1 ≤ k then some e else some (k, -9)
  | some e, none => some e
  | none, some k => some (k, -9)
  | none, none => none

/-- The sink that a stream reads from. -/
def sinkOf (stream : Stream) : Sink :=
  match stream with
  | .stderr => .stderr
  | _ => .stdout

/-- The time at which a stream ends, if it does: nobody holds it open any more. -/
def closing? (c : Child) (stream : Stream) : Option Time :=
  let sink := sinkOf stream
  let flooded := c.trace.machine.floods.any fun f => f.1 = sink
  let natural :=
    if flooded then none else holdsEnd c.trace.machine.holds sink (c.trace.ends.map Prod.fst)
  match natural, c.killedAt with
  | some t, some k => some (min t k)
  | some t, none => some t
  | none, k => k

/-- What was written to a stream before the group was killed. -/
def received (c : Child) (stream : Stream) : List UInt8 :=
  (c.trace.machine.collected (sinkOf stream) c.killedAt).flatMap Prod.snd

/-- Waits for the end of a stream for a time at most. -/
def join (c : Child) (limit : Nat) (stream : Stream) : Child :=
  let latest := c.clock + limit
  { c with clock := max c.clock (min latest ((c.closing? stream).getD latest)) }

/-- Waits for the end of the process for a time at most. -/
def await (c : Child) (limit : Nat) : Child :=
  let latest := c.clock + limit
  let ends := match c.killedAt with
    | some k => k
    | none => (c.trace.ends.map Prod.fst).getD latest
  { c with clock := max c.clock (min latest ends) }

end Child

/-- The host of one child process. -/
def host (w : World) (joinLimit : Nat) (cancellation : Option (Cancellation Child)) : Host Child where
  now := Act.look fun c => (c.clock : Int)
  start argv := fun c =>
    match argv with
    | [] => (.ok none, c)
    | command :: args =>
      match startFault? w command args, w.find command with
      | some fault, _ => (.ok (some fault), c)
      | none, .program program => (.ok none, { c with trace := execute w command program args })
      | none, _ => (.ok none, c)
  pidText := pure (toString shellNumber)
  poll := Act.look fun c => c.ending?.map Prod.snd
  returncode := Act.look fun c => c.ending?.map Prod.snd
  wait nanos := fun c =>
    let c := c.await nanos
    (.ok c.ending?.isSome, c)
  kill := pure ()
  killGroup := Act.change fun c => { c with killedAt := some (c.killedAt.getD c.clock) }
  joinReaders := fun c =>
    let c := (c.join joinLimit .stdout).join joinLimit .stderr
    let finished := fun stream => (c.closing? stream).any fun t => t ≤ c.clock
    (.ok (finished .stdout && finished .stderr), c)
  close _ := pure ()
  collected := Act.look fun c => (c.received .stdout, c.received .stderr)
  note r := Act.change fun c => { c with log := c.log ++ [r] }
  cancellation := cancellation

/-- A token whose state does not change during a run. -/
def fixedCancellation (cancelled : Bool) : Cancellation Child where
  cancelled := pure cancelled
  pause nanos := Act.change fun c => { c with clock := c.clock + nanos }

/-- Runs a program once, for a number of milliseconds at most. -/
def supervise (w : World) (joinLimit : Nat) (cancelled : Option Bool) (command : String)
    (args : List String) (timeout : Value) : Except Failure RawOutput × List LogRecord :=
  let run := Supervision.supervise (host w joinLimit (cancelled.map fixedCancellation)) command args
    timeout
  let (r, c) := run.runOn {}
  (r, c.log)

/-- The invoker that runs the analyzer as a program. -/
def invoker {ε : Type} (w : World) : Invoker ε := fun call token => fun s =>
  let (r, log) := supervise w readerNanos (some (s.session.isCancelled token)) call.command call.args
    (.int call.timeoutMs)
  (r, { s with log := s.log ++ log })

end Shell

end AnalyzerBridge
