import LarkPhp.Decimal.Shortest

/-!
Doubles as text.

A double is given by its 64 bits: one of sign, eleven of exponent, fifty-two of fraction.  A
`Layout` says which magnitudes are written out in full and how the values that are no numbers are
spelled.  Other values get the shortest digits that read back, a sign only if negative, and always
a point or an exponent.
-/

namespace LarkPhp.Decimal

/-- How doubles are spelled. -/
structure Layout where
  /-- Least exponent of a leading digit that is written positionally. -/
  leastPositional : Int
  /-- Greatest exponent of a leading digit that is written positionally. -/
  mostPositional : Int
  nan : String
  infinity : String

/-- What the bits of a double stand for. -/
inductive Double where
  | nan
  | infinite (negative : Bool)
  | zero (negative : Bool)
  /-- The value `mantissa · 2^exponent`, the mantissa not zero. -/
  | finite (negative : Bool) (mantissa : Nat) (exponent : Int) (leastOfBinade : Bool)

/-- Width of the fraction, as a factor. -/
def fractionSize : Nat := Nat.pow 2 52

/-- Reads the bits of a double. -/
def Double.ofBits (bits : UInt64) : Double :=
  let n := bits.toNat
  let negative := n / (2048 * fractionSize) == 1
  let biased := n / fractionSize % 2048
  let fraction := n % fractionSize
  if biased = 2047 then if fraction = 0 then .infinite negative else .nan
  else if biased = 0 then
    if fraction = 0 then .zero negative else .finite negative fraction (-1074) false
  else
    .finite negative (fractionSize + fraction) ((biased : Int) - 1075) (fraction = 0 && biased > 1)

/-- A decimal without trailing zeros in its significand; `fuel` bounds their number. -/
def Scaled.trim : (fuel : Nat) → Scaled → Scaled
  | 0, d => d
  | fuel + 1, d =>
    if d.significand % 10 = 0 then trim fuel ⟨d.significand / 10, d.exponent + 1⟩ else d

namespace Layout

/-- `n` zeros. -/
def zeros (n : Nat) : String := String.ofList (List.replicate n '0')

/-- The digits of a positive decimal, with a point or an exponent. -/
def digits (layout : Layout) (d : Scaled) : String :=
  let ds := Nat.toDigits 10 d.significand
  let leading : Int := d.exponent + ds.length - 1
  if layout.leastPositional ≤ leading ∧ leading ≤ layout.mostPositional then
    if leading < 0 then "0." ++ zeros (-leading - 1).toNat ++ String.ofList ds
    else
      let whole := leading.toNat + 1
      if ds.length ≤ whole then String.ofList ds ++ zeros (whole - ds.length) ++ ".0"
      else String.ofList (ds.take whole) ++ "." ++ String.ofList (ds.drop whole)
  else
    let mark := "e" ++ toString leading
    match ds with
    | first :: rest@(_ :: _) => String.ofList (first :: '.' :: rest) ++ mark
    | _ => String.ofList ds ++ mark

/-- A value's sign. -/
def sign (negative : Bool) : String := if negative then "-" else ""

/-- The text of the double with these bits. -/
def write (layout : Layout) (bits : UInt64) : String :=
  match Double.ofBits bits with
  | .nan => layout.nan
  | .infinite negative => sign negative ++ layout.infinity
  | .zero negative => sign negative ++ "0.0"
  | .finite negative mantissa exponent least =>
    let d := (Interval.ofBinary mantissa exponent least).shortest
    sign negative ++ layout.digits (d.trim 17)

end Layout

end LarkPhp.Decimal
