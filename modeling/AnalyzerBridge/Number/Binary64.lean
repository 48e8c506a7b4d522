/-
Binary floating point with 53 bits, as exact numbers.

A finite value is `± m · 2 ^ e`, kept in its canonical form: `m < 2 ^ 53`,
`-1074 ≤ e ≤ 971`, and `2 ^ 52 ≤ m` unless `e = -1074`.  `nearest` rounds a
quotient of natural numbers to the nearest value, a tie to the even one, and
`ofDecimal` reads a decimal by it.

Design notes: all arithmetic is on `Nat` and `Int`, so that statements about it
need no facts on machine floats.
-/

namespace AnalyzerBridge

/-- A value of the 53-bit binary format. -/
inductive Binary64 where
  | nan
  | infinite (negative : Bool)
  | finite (negative : Bool) (m : Nat) (e : Int)
  deriving DecidableEq, Inhabited

namespace Binary64

/-- Zero with a sign. -/
def zero (negative : Bool) : Binary64 :=
  .finite negative 0 (-1074)

/-- The quotient rounded to the nearest natural number, a tie to the even one. -/
def roundQuotient (num den : Nat) : Nat :=
  let q := num / den
  let r := num % den
  if den < 2 * r || (2 * r == den && q % 2 == 1) then q + 1 else q

/-- The numerator and denominator of `num / den / 2 ^ e`. -/
def scaled (num den : Nat) (e : Int) : Nat × Nat :=
  if 0 ≤ e then (num, den * Nat.pow 2 e.toNat) else (num * Nat.pow 2 (-e).toNat, den)

/-- The exponent at which a positive quotient has a 53-bit integer part, kept at or above the least
exponent of the format. -/
def exponentOf (num den : Nat) : Int :=
  let guess : Int := (Nat.log2 num : Int) - (Nat.log2 den : Int) - 53
  let s := scaled num den guess
  let e := if Nat.pow 2 53 ≤ s.1 / s.2 then guess + 1 else guess
  max e (-1074)

/-- The value nearest to a non-negative quotient; one beyond the largest value is infinite. -/
def nearest (negative : Bool) (num den : Nat) : Binary64 :=
  if num = 0 then zero negative
  else
    let e := exponentOf num den
    let s := scaled num den e
    let m := roundQuotient s.1 s.2
    let (m, e) := if m = Nat.pow 2 53 then (Nat.pow 2 52, e + 1) else (m, e)
    if 971 < e then .infinite negative else .finite negative m e

/-- The value nearest to `± digits · 10 ^ exponent`.  A decimal far outside the range of the format is
answered without building its powers of ten. -/
def ofDecimal (negative : Bool) (digits : Nat) (exponent : Int) : Binary64 :=
  let magnitude : Int := (Nat.toDigits 10 digits).length + exponent
  if digits = 0 || magnitude < -330 then zero negative
  else if 330 < magnitude then .infinite negative
  else if 0 ≤ exponent then nearest negative (digits * Nat.pow 10 exponent.toNat) 1
  else nearest negative digits (Nat.pow 10 (-exponent).toNat)

/-- The quotient of a natural number by a positive one, `none` when it is too large for the format. -/
def quotient? (num den : Nat) : Option Binary64 :=
  match nearest false num den with
  | .finite s m e => some (.finite s m e)
  | _ => none

/-- A finite value cut to an integer, toward zero. -/
def truncate? : Binary64 → Option Int
  | .finite negative m e =>
    let n : Nat := if 0 ≤ e then m * Nat.pow 2 e.toNat else m / Nat.pow 2 (-e).toNat
    some (if negative then -(n : Int) else n)
  | _ => none

/-- A finite value without a fractional part, as an integer. -/
def integer? : Binary64 → Option Int
  | .finite negative m e =>
    if 0 ≤ e || m % Nat.pow 2 (-e).toNat = 0 then truncate? (.finite negative m e) else none
  | _ => none

/-- A value that is neither infinite nor not a number. -/
def isFinite : Binary64 → Bool
  | .finite .. => true
  | _ => false

/-- Zero of either sign. -/
def isZero : Binary64 → Bool
  | .finite _ m _ => m == 0
  | _ => false

end Binary64

end AnalyzerBridge
