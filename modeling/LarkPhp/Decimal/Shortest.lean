/-!
The shortest decimal that stands for a binary number.

A number m · 2^q owns the interval of reals that round to it.  `Interval.shortest` looks at ever
finer decimal grids and stops at the first one with a point inside; of the value's two neighbours
on that grid it takes the one inside, of two the nearer, and halfway the upper.  All arithmetic is
exact, on natural numbers over one denominator.
-/

namespace LarkPhp.Decimal

/-- A decimal `significand · 10^exponent`. -/
structure Scaled where
  significand : Nat
  exponent : Int
deriving DecidableEq

/-- A positive value between the ends of the interval of reals that round to it, all three over the
denominator `unit`.  The ends belong to the interval if `closed`. -/
structure Interval where
  low : Nat
  value : Nat
  high : Nat
  unit : Nat
  closed : Bool

namespace Interval

/-- The interval of the double `mantissa · 2^exponent`.  It reaches half way to either neighbour;
below a power of two, the number with the least mantissa of its binade, the neighbour is nearer. -/
def ofBinary (mantissa : Nat) (exponent : Int) (leastOfBinade : Bool) : Interval :=
  -- four times the mantissa, so that both ends are whole
  let twos := Nat.pow 2 (exponent - 2).toNat
  { low := (4 * mantissa - if leastOfBinade then 1 else 2) * twos
    value := 4 * mantissa * twos
    high := (4 * mantissa + 2) * twos
    unit := Nat.pow 2 (2 - exponent).toNat
    closed := mantissa % 2 == 0 }

/-- The interval measured in steps of `10^k`. -/
def onGrid (i : Interval) (k : Int) : Interval :=
  let tens := Nat.pow 10 (-k).toNat
  { i with
    low := i.low * tens
    value := i.value * tens
    high := i.high * tens
    unit := i.unit * Nat.pow 10 k.toNat }

/-- Whether the whole number `n` lies inside. -/
def holds (i : Interval) (n : Nat) : Bool :=
  if i.closed then i.low ≤ n * i.unit && n * i.unit ≤ i.high
  else i.low < n * i.unit && n * i.unit < i.high

/-- The whole number inside that is next to the value, if there is one. -/
def nearest? (i : Interval) : Option Nat :=
  let below := i.value / i.unit
  match i.holds below, i.holds (below + 1) with
  | true, true => if 2 * (i.value % i.unit) < i.unit then some below else some (below + 1)
  | true, false => some below
  | false, true => some (below + 1)
  | false, false => none

/-- Number of decimal digits of a positive number. -/
def digitCount (n : Nat) : Nat := (Nat.toDigits 10 n).length

/-- The exponent of the value's leading decimal digit. -/
def magnitude (i : Interval) : Int :=
  if i.unit ≤ i.value then (digitCount (i.value / i.unit) : Int) - 1
  else -(digitCount ((i.unit + i.value - 1) / i.value - 1) : Int)

/-- The first hit on the grids `10^k`, `10^(k-1)`, …, at most `tries` of them. -/
def search (i : Interval) : (tries : Nat) → (k : Int) → Scaled
  | 0, k => ⟨(i.onGrid k).value / (i.onGrid k).unit, k⟩
  | tries + 1, k =>
    match (i.onGrid k).nearest? with
    | some n => ⟨n, k⟩
    | none => i.search tries (k - 1)

/-- The shortest decimal inside.  Seventeen digits always reach into the interval of a double. -/
def shortest (i : Interval) : Scaled := i.search 17 i.magnitude

end Interval

end LarkPhp.Decimal
