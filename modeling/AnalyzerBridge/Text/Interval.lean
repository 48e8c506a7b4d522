/-
Sets of code points given by their boundaries.

A property that changes value at the code points `b₀ < b₁ < b₂ < …` and is false
below `b₀` is the list of these boundaries; `inIntervals` decides it.
-/

namespace AnalyzerBridge.Text

/-- Membership in the union of the half-open intervals between the first and second boundary, the
third and fourth, and so on. -/
def inIntervals : List Nat → Nat → Bool
  | lo :: hi :: rest, n => if n < lo then false else if n < hi then true else inIntervals rest n
  | _, _ => false

end AnalyzerBridge.Text
