/-
The shortest decimal of a binary floating-point number.

`Shortest.decimal m e` gives the fewest decimal digits that read back as
`m · 2 ^ e`, and of those the decimal nearest to it.  `Binary64.text` writes it:
positional from `10 ^ -4` up to `10 ^ 16`, always with a fractional part, and
otherwise with an exponent of at least two digits and its sign.

Design notes: the reals that round to the value form an interval, closed when
`m` is even.  For `n = 1, 2, …, 17` the two neighbours of the value on the grid
of `n` significant digits are tested against that interval in exact arithmetic;
the first grid with a hit wins, because a point of a coarser grid in the interval
forces one of the two neighbours into it.  All comparisons are scaled to a common
denominator: a decimal `c · 10 ^ k` becomes `c * a`, and `x` quarters of the last
binary place become `x * b`.
-/
import AnalyzerBridge.Number.Binary64

namespace AnalyzerBridge.Number

namespace Shortest

/-- The interval of the reals that round to `m · 2 ^ e`, in quarters of `2 ^ e`, and the grid of
`10 ^ k`, over a common denominator. -/
structure Grid where
  low : Nat
  value : Nat
  high : Nat
  unit : Nat
  closed : Bool

/-- The grid `10 ^ k` around `m · 2 ^ e`. -/
def grid (m : Nat) (e k : Int) : Grid :=
  let a := Nat.pow 10 k.toNat * Nat.pow 2 (2 - e).toNat
  let b := Nat.pow 2 (e - 2).toNat * Nat.pow 10 (-k).toNat
  let low := if m = Nat.pow 2 52 && -1074 < e then 4 * m - 1 else 4 * m - 2
  ⟨low * b, 4 * m * b, (4 * m + 2) * b, a, m % 2 == 0⟩

/-- The decimal with `c` at the grid's place rounds to the value. -/
def Grid.accepts (g : Grid) (c : Nat) : Bool :=
  let x := c * g.unit
  if g.closed then g.low ≤ x && x ≤ g.high else g.low < x && x < g.high

/-- The nearest point of the grid that reads back as the value, the even one on a tie. -/
def Grid.hit? (g : Grid) : Option Nat :=
  let below := g.value / g.unit
  let above := below + 1
  let down := g.value - below * g.unit
  let up := above * g.unit - g.value
  let preferBelow := down < up || (down == up && below % 2 == 0)
  match g.accepts below, g.accepts above with
  | true, true => some (if preferBelow then below else above)
  | true, false => some below
  | false, true => some above
  | false, false => none

/-- The place of the leading decimal digit of a positive `m · 2 ^ e`. -/
def leadingPlace (m : Nat) (e : Int) : Int :=
  let big := m * Nat.pow 10 400 * Nat.pow 2 e.toNat / Nat.pow 2 (-e).toNat
  ((Nat.toDigits 10 big).length : Int) - 401

/-- The first hit on the grids of `n`, `n + 1`, … significant digits, with its place. -/
def search (m : Nat) (e place : Int) : (tries n : Nat) → Nat × Int
  | 0, n => ((grid m e (place - n + 1)).value / (grid m e (place - n + 1)).unit, place - n + 1)
  | tries + 1, n =>
    match (grid m e (place - n + 1)).hit? with
    | some c => (c, place - n + 1)
    | none => search m e place tries (n + 1)

/-- Drops the zeros at the end of a list of digits in reverse, counting them into the exponent. -/
def dropZeros : List Char → Int → List Char × Int
  | '0' :: rest, k => dropZeros rest (k + 1)
  | digits, k => (digits.reverse, k)

/-- The shortest digits `d` and an exponent `k` with `d · 10 ^ k` reading back as `m · 2 ^ e`. -/
def decimal (m : Nat) (e : Int) : List Char × Int :=
  let (c, k) := search m e (leadingPlace m e) 17 1
  dropZeros (Nat.toDigits 10 c).reverse k

end Shortest

/-- Where positional notation begins and ends, as places of the leading digit. -/
def positionalPlaces : Int × Int := (-4, 15)

/-- Zeros. -/
def zeros (n : Nat) : List Char :=
  List.replicate n '0'

/-- A positive decimal: positional with a fractional part, or one digit, the rest, and an exponent of
at least two digits. -/
def decimalText (digits : List Char) (k : Int) : List Char :=
  let place : Int := digits.length + k - 1
  if positionalPlaces.1 ≤ place && place ≤ positionalPlaces.2 then
    if 0 ≤ k then digits ++ zeros k.toNat ++ ['.', '0']
    else if 0 ≤ place then
      digits.take (place + 1).toNat ++ ['.'] ++ digits.drop (place + 1).toNat
    else ['0', '.'] ++ zeros (-place - 1).toNat ++ digits
  else
    let exponent := Nat.toDigits 10 place.natAbs
    let fraction := if digits.length ≤ 1 then [] else '.' :: digits.drop 1
    digits.take 1 ++ fraction ++ ['e', if place < 0 then '-' else '+'] ++
      zeros (2 - exponent.length) ++ exponent

end AnalyzerBridge.Number

namespace AnalyzerBridge.Binary64

/-- The text of a floating-point number: its shortest decimal, signed zeros apart, and the three names
of the values that are no numbers. -/
def text : Binary64 → String
  | .nan => "nan"
  | .infinite negative => if negative then "-inf" else "inf"
  | .finite negative m e =>
    let body :=
      if m = 0 then ['0', '.', '0']
      else Number.decimalText (Number.Shortest.decimal m e).1 (Number.Shortest.decimal m e).2
    String.ofList (if negative then '-' :: body else body)

end AnalyzerBridge.Binary64
