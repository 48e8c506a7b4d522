/-
Operations that change a state and may fail.

An `Act σ α` takes a state to a result or a failure and the state after it; a
failure keeps the changes made before it.  `attempt` hands a failure over as a
value, and `ensuring` runs a second operation after the first, however it ended.
-/
import AnalyzerBridge.Failure

namespace AnalyzerBridge

/-- An operation on a state of type `σ` that ends with an `α` or a failure. -/
abbrev Act (σ α : Type) := ExceptT Failure (StateM σ) α

namespace Act

variable {σ α : Type}

/-- Runs an operation on a state. -/
def runOn (a : Act σ α) (s : σ) : Except Failure α × σ :=
  a s

/-- The operation with its failure as a value. -/
def attempt (a : Act σ α) : Act σ (Except Failure α) := fun s =>
  let (r, s) := a s
  (.ok r, s)

/-- Reads the state. -/
def look (f : σ → α) : Act σ α := fun s => (.ok (f s), s)

/-- Changes the state. -/
def change (f : σ → σ) : Act σ Unit := fun s => (.ok (), f s)

/-- A result that is at hand. -/
def ofExcept (r : Except Failure α) : Act σ α := fun s => (r, s)

/-- Runs an operation and then a second one, however the first ended.  A failure of the second stands;
otherwise the end of the first does. -/
def ensuring (a : Act σ α) (cleanup : Act σ Unit) : Act σ α := fun s =>
  let (r, s) := a s
  match cleanup s with
  | (.ok _, s) => (r, s)
  | (.error f, s) => (.error f, s)

end Act

end AnalyzerBridge
