/-
Deadlines on a clock that counts nanoseconds.

A deadline is a mark of the clock.  What remains of it is never negative, and it
has expired once nothing remains.
-/
import AnalyzerBridge.Failure

namespace AnalyzerBridge

/-- A mark of the clock by which something has to end. -/
structure Deadline where
  mark : Int
  deriving DecidableEq, Inhabited

/-- Nanoseconds in a second. -/
def nanosPerSecond : Nat := 1000000000

/-- Nanoseconds in a millisecond. -/
def nanosPerMilli : Nat := 1000000

/-- A number of nanoseconds as seconds, unless it is too large for the format. -/
def secondsOf (nanos : Nat) : Except Failure Binary64 :=
  match Binary64.quotient? nanos nanosPerSecond with
  | some x => .ok x
  | none => .error .quotientTooLarge

namespace Deadline

/-- The deadline a number of ticks of a given length after a mark. -/
def ofTicks (now : Int) (ticks tickNanos : Value) : Except Failure Deadline :=
  match ticks.toInteger, tickNanos.toInteger with
  | .error f, _ => .error f
  | .ok _, .error f => .error f
  | .ok n, .ok nanos =>
    if n < 0 then .error (.breach (.negativeTicks ticks))
    else if nanos ≤ 0 then .error (.breach (.nonPositiveTick tickNanos))
    else .ok ⟨now + n * nanos⟩

/-- The deadline a number of milliseconds after a mark. -/
def ofMillis (now : Int) (millis : Value) : Except Failure Deadline :=
  ofTicks now millis (.int nanosPerMilli)

/-- The nanoseconds that remain at a mark. -/
def remaining (d : Deadline) (now : Int) : Nat :=
  (max 0 (d.mark - now)).toNat

/-- The seconds that remain at a mark. -/
def remainingSeconds (d : Deadline) (now : Int) : Except Failure Binary64 :=
  secondsOf (d.remaining now)

/-- Nothing remains at a mark. -/
def expired (d : Deadline) (now : Int) : Bool :=
  d.mark ≤ now

end Deadline

end AnalyzerBridge
