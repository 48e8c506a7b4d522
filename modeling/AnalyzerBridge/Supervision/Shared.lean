/-
A child whose request runs beside others.

While a request waits for its analyzer, others begin, finish and close documents
of the same session.  `Scene` holds what they will do, in turns, and what has been
done so far; `sharedHost` gives them a turn before every operation on the child,
and before every look at the token of the request.

Design notes: the child is on a host of its own with a state of its own, the
stage, which the others cannot reach; they meet the request in the session alone.
-/
import AnalyzerBridge.Coordinator
import AnalyzerBridge.Supervision.Basic

namespace AnalyzerBridge

/-- What surrounds a request that runs beside others: the state of the host of its child, what the others
do to the session in each of their next turns, and what has been done to it so far. -/
structure Scene (τ : Type) where
  stage : τ
  schedule : List (List Session.Step) := []
  past : List Session.Step := []

namespace Supervision

variable {τ α : Type}

/-- The workspace after the next turn of the others. -/
def turn (w : Workspace (Scene τ)) : Workspace (Scene τ) :=
  { w with
    session := (w.surroundings.schedule.headD []).foldl (fun s x => (s.step x).2) w.session
    surroundings := { w.surroundings with
      schedule := w.surroundings.schedule.tail
      past := w.surroundings.past ++ w.surroundings.schedule.headD [] } }

/-- An operation on the stage. -/
def onStage (a : Act τ α) : Act (Workspace (Scene τ)) α := fun w =>
  let (r, stage) := a w.surroundings.stage
  (r, { w with surroundings := { w.surroundings with stage := stage } })

/-- An operation on the stage after a turn of the others. -/
def amid (a : Act τ α) : Act (Workspace (Scene τ)) α := do
  Act.change turn
  onStage a

/-- The host of a child whose request shares its session; the token is looked up there. -/
def sharedHost (host : Host τ) (token : Token) : Host (Workspace (Scene τ)) where
  now := amid host.now
  start argv := amid (host.start argv)
  pidText := amid host.pidText
  poll := amid host.poll
  returncode := amid host.returncode
  wait nanos := amid (host.wait nanos)
  kill := amid host.kill
  killGroup := amid host.killGroup
  joinReaders := amid host.joinReaders
  close stream := amid (host.close stream)
  collected := amid host.collected
  note r := amid (host.note r)
  cancellation := some {
    cancelled := do
      Act.change turn
      Act.look fun w => w.session.isCancelled token
    pause := fun nanos => amid (rest host nanos) }

/-- The analyzer on a host, run for requests that share their session with others. -/
def sharedInvoker (host : Host τ) (rounds : Nat) : Invoker (Scene τ) := fun call token =>
  superviseFor (sharedHost host token) rounds call.command call.args (.int call.timeoutMs)

end Supervision

end AnalyzerBridge
