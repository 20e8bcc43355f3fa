/-!
# Wide numbers

Binary floating-point numbers of 384 bits with exponents of any size. An interior-point method
subtracts numbers that agree in most of their digits: near the boundary of a cone, where one row of
a program dwarfs another, or where the objective hides a small duality gap. In wide numbers enough
digits are left, so that what a run finds hangs on the program and not on rounding. Dividing by zero
gives zero.

This is a part of the method that `bundled` runs in place of the numeric library
(`InteriorPoint.solver`); no result depends on it.
-/

namespace Conic.InteriorPoint

/-- The number `mantissa * 2 ^ exponent`. -/
structure Wide where
  mantissa : Int
  exponent : Int
  deriving DecidableEq, Repr

namespace Wide

/-- The most bits of a mantissa. -/
def precision : Nat := 384

/-- The number with so many bits of the mantissa as there is room for. -/
def rounded (mantissa exponent : Int) : Wide :=
  let size := mantissa.natAbs
  let bits := size.log2 + 1
  if bits ≤ precision then ⟨mantissa, exponent⟩
  else
    let excess := bits - precision
    let kept := Int.ofNat (size >>> excess)
    ⟨if mantissa < 0 then -kept else kept, exponent + excess⟩

/-- A whole number. -/
def ofNat (n : Nat) : Wide := rounded n 0

/-- Whether a number is zero. -/
def isZero (a : Wide) : Bool := a.mantissa = 0

/-- Whether a number is positive. -/
def isPositive (a : Wide) : Bool := 0 < a.mantissa

/-- The exponent of the leading bit. -/
def magnitude (a : Wide) : Int := a.mantissa.natAbs.log2 + a.exponent

/-! ## Floats -/

/-- The value of a float; zero for one that is not finite. -/
def ofFloat (x : Float) : Wide :=
  if x.isFinite then
    let (fraction, exponent) := x.frExp
    ⟨(fraction.scaleB 53).toInt64.toInt, exponent - 53⟩
  else ⟨0, 0⟩

/-- A float close to the number, from its leading bits. -/
def toFloat (a : Wide) : Float :=
  let excess := a.mantissa.natAbs.log2 - 63
  (Float.ofInt (a.mantissa >>> excess)).scaleB (a.exponent + excess)

/-! ## Arithmetic -/

/-- The sum. A number that is below all the bits of the other is left out. -/
def add (a b : Wide) : Wide :=
  if a.isZero then b
  else if b.isZero then a
  else
    let gap := a.exponent - b.exponent
    if 3 * precision < gap then a
    else if gap < -(3 * precision) then b
    else if 0 ≤ gap then rounded ((a.mantissa <<< gap.toNat) + b.mantissa) b.exponent
    else rounded (a.mantissa + (b.mantissa <<< (-gap).toNat)) a.exponent

/-- The product. -/
def mul (a b : Wide) : Wide :=
  if a.isZero || b.isZero then ⟨0, 0⟩
  else rounded (a.mantissa * b.mantissa) (a.exponent + b.exponent)

/-- The quotient, zero if the divisor is. -/
def div (a b : Wide) : Wide :=
  if a.isZero || b.isZero then ⟨0, 0⟩
  else
    rounded ((a.mantissa <<< (2 * precision)) / b.mantissa)
      (a.exponent - b.exponent - 2 * precision)

instance : Zero Wide := ⟨⟨0, 0⟩⟩
instance : Neg Wide := ⟨fun a => ⟨-a.mantissa, a.exponent⟩⟩
instance : Add Wide := ⟨add⟩
instance : Sub Wide := ⟨fun a b => a.add ⟨-b.mantissa, b.exponent⟩⟩
instance : Mul Wide := ⟨mul⟩
instance : Div Wide := ⟨div⟩
instance (n : Nat) : OfNat Wide n := ⟨ofNat n⟩
instance : LT Wide := ⟨fun a b => (a - b).mantissa < 0⟩
instance : LE Wide := ⟨fun a b => (a - b).mantissa ≤ 0⟩

instance (a b : Wide) : Decidable (a < b) := inferInstanceAs (Decidable ((a - b).mantissa < 0))
instance (a b : Wide) : Decidable (a ≤ b) := inferInstanceAs (Decidable ((a - b).mantissa ≤ 0))

/-- The magnitude. -/
def abs (a : Wide) : Wide := ⟨a.mantissa.natAbs, a.exponent⟩

/-- The larger of two numbers. -/
def max (a b : Wide) : Wide := if a < b then b else a

/-- The smaller of two numbers. -/
def min (a b : Wide) : Wide := if b < a then b else a

/-- The number `num / den`. -/
def ratio (num den : Nat) : Wide := ofNat num / ofNat den

/-! ## Roots and logarithms -/

/-- The square root, zero for a negative number: Newton's method, from that of a float. -/
def sqrt (a : Wide) : Wide :=
  if a.isPositive then
    let half := a.magnitude / 2
    let square : Wide := ⟨a.mantissa, a.exponent - 2 * half⟩
    let root := (List.range 4).foldl (fun r _ => (r + square / r) / 2) (ofFloat square.toFloat.sqrt)
    ⟨root.mantissa, root.exponent + half⟩
  else 0

/-- The first terms of the sum of `power * square ^ i / (k + 2 * i)` over all `i`. -/
def oddSeries (square : Wide) : Nat → Nat → Wide → Wide
  | 0, _, _ => 0
  | terms + 1, k, power => power / ofNat k + oddSeries square terms (k + 2) (power * square)

/-- The logarithm of `a`, by so many terms of the series for its distance from one. -/
def logNearOne (terms : Nat) (a : Wide) : Wide :=
  let t := (a - 1) / (a + 1)
  2 * oddSeries (t * t) terms 1 t

/-- The logarithm of two. -/
def logTwo : Wide := logNearOne 125 2

/-- The logarithm of a positive number: that of its part between the roots of a half and of two, and
as many times that of two as the exponent says. -/
def log (a : Wide) : Wide :=
  let exponent := a.magnitude
  let part : Wide := ⟨a.mantissa, a.exponent - exponent⟩
  let (part, exponent) :=
    if 2 < part * part then ((⟨part.mantissa, part.exponent - 1⟩ : Wide), exponent + 1)
    else (part, exponent)
  logNearOne 80 part + rounded exponent 0 * logTwo

end Wide

end Conic.InteriorPoint
