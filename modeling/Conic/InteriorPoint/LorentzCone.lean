import Conic.InteriorPoint.Linear

/-!
# The second-order cone

The vectors whose head exceeds the length of their tail, with the product that makes them the cone
of squares of an algebra. The unit of the algebra has a head of one and a tail of zeros.

This is a part of the method that `bundled` runs in place of the numeric library
(`InteriorPoint.solver`); no result depends on it.
-/

namespace Conic.InteriorPoint.LorentzCone

/-- The unit of the algebra on vectors of `rows` entries. -/
def unit (rows : Nat) : DenseVector Wide := (1 :: DenseVector.zeros (rows - 1)).take rows

/-- How much the head exceeds the length of the tail. -/
def margin (v : DenseVector Wide) : Wide := v.entry 0 - length v.tail

/-- The square of the head less that of the tail; positive inside the cone. -/
def residual (v : DenseVector Wide) : Wide := v.entry 0 * v.entry 0 - dot v.tail v.tail

/-- The product of the algebra. -/
def product : DenseVector Wide → DenseVector Wide → DenseVector Wide
  | a :: v, b :: w => dot (a :: v) (b :: w) :: List.zipWith (fun p q => a * q + b * p) v w
  | _, _ => []

/-- The vector whose product with `v` is `p`. -/
def quotient : DenseVector Wide → DenseVector Wide → DenseVector Wide
  | a :: v, b :: p =>
    let head := (a * b - dot v p) / residual (a :: v)
    head :: List.zipWith (fun vi pi => (pi - head * vi) / a) v p
  | _, _ => []

/-- The longest step along `d`, up to a limit, that does not lead out of the cone from `v` inside:
the first positive root of the residual, which is quadratic in the step. -/
def longestStep (limit : Wide) (v d : DenseVector Wide) : Wide :=
  let a := residual d
  let b := 2 * (v.entry 0 * d.entry 0 - dot v.tail d.tail)
  let c := residual v
  let square := b * b - 4 * a * c
  let limit := if d.entry 0 < 0 then limit.min (-v.entry 0 / d.entry 0) else limit
  if square < 0 || (0 < a && 0 < b) then limit
  else
    let t := if b < 0 then square.sqrt - b else -b - square.sqrt
    [2 * c / t, t / (2 * a)].foldl (fun m root => if root.isPositive then m.min root else m) limit

end Conic.InteriorPoint.LorentzCone
