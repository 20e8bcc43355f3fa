/-!
# Shortest decimals

The decimal with the fewest digits that reads back as a given float, and of those the nearest to it.
The reals that round to the float form an interval. The multiples of a power of ten are a grid, and
each grid contains the coarser ones, so the decimal wanted lies on the coarsest grid that meets the
interval. All comparisons are between natural numbers.
-/

namespace Conic.Decimal

/-- The number of fractions that the bits of a double tell apart: two to the power of 52. -/
def fractions : Nat := 4503599627370496

/-- A positive float and the ends of the interval of reals that round to it, as numerators over one
denominator. The ends belong to the interval when `closed` holds. -/
structure RoundingInterval where
  low : Nat
  value : Nat
  high : Nat
  denominator : Nat
  closed : Bool
  deriving DecidableEq, Repr

/-- A decimal: `digits * 10 ^ exponent`. -/
structure Magnitude where
  digits : Nat
  exponent : Int
  deriving DecidableEq, Repr

namespace RoundingInterval

/-- The interval of the float whose bits are those of a double without its sign. Half a unit belongs
to each side, but only a quarter lies below a power of two, where the floats get denser. -/
def ofBits (bits : Nat) : RoundingInterval :=
  let fraction := bits % fractions
  let biased := bits / fractions
  let (mantissa, exponent) : Nat × Int :=
    if biased = 0 then (fraction, -1074) else (fraction + fractions, (biased : Int) - 1075)
  let below := if fraction = 0 ∧ 1 < biased then 1 else 2
  let scale := Nat.pow 2 (exponent - 2).toNat
  { low := (4 * mantissa - below) * scale
    value := 4 * mantissa * scale
    high := (4 * mantissa + 2) * scale
    denominator := Nat.pow 2 (2 - exponent).toNat
    closed := mantissa % 2 = 0 }

/-- The multiple of `10 ^ exponent` in the interval that is nearest to the value, the larger of two
equally near, if there is one. Only the two neighbours of the value need a look. -/
def nearest? (r : RoundingInterval) (exponent : Int) : Option Nat :=
  let step := Nat.pow 10 exponent.toNat * r.denominator
  let unit := Nat.pow 10 (-exponent).toNat
  let inside (k : Nat) : Bool :=
    if r.closed then r.low * unit ≤ k * step && k * step ≤ r.high * unit
    else r.low * unit < k * step && k * step < r.high * unit
  let lower := r.value * unit / step
  let upper := lower + 1
  match inside lower, inside upper with
  | true, true =>
    some (if r.value * unit - lower * step < upper * step - r.value * unit then lower else upper)
  | true, false => some lower
  | false, true => some upper
  | false, false => none

/-- The first grid with a hit, from `10 ^ exponent` down over `fuel` grids. -/
def coarsest (r : RoundingInterval) : Nat → Int → Magnitude
  | 0, exponent => ⟨0, exponent⟩
  | fuel + 1, exponent =>
    match r.nearest? exponent with
    | some digits => ⟨digits, exponent⟩
    | none => coarsest r fuel (exponent - 1)

/-- The shortest decimal of the interval. The search begins at a power of ten above the value and
ends at the latest where the grid is as fine as the floats themselves. -/
def shortest (r : RoundingInterval) : Magnitude :=
  r.coarsest 1500 (Nat.toDigits 10 (r.value / r.denominator)).length

end RoundingInterval

/-- The digits of a decimal written out without an exponent. -/
def Magnitude.text (d : Magnitude) : String :=
  let digits := Nat.toDigits 10 d.digits
  let places := (-d.exponent).toNat
  if places = 0 then
    String.ofList (digits ++ List.replicate d.exponent.toNat '0')
  else if places < digits.length then
    let whole := digits.length - places
    String.ofList (digits.take whole ++ '.' :: digits.drop whole)
  else
    String.ofList ('0' :: '.' :: List.replicate (places - digits.length) '0' ++ digits)

/-- A float as text: the shortest digits that read back, never an exponent, no point in a whole
number. Zero keeps its sign. -/
def text (x : Float) : String :=
  if x.isNaN then "NaN"
  else
    let bits := x.toBits.toNat
    let signBit := 2048 * fractions
    let sign := if bits / signBit = 1 then "-" else ""
    let magnitude := bits % signBit
    sign ++
      if magnitude = 2047 * fractions then "inf"
      else if magnitude = 0 then "0"
      else (RoundingInterval.ofBits magnitude).shortest.text

end Conic.Decimal
