import Conic.InteriorPoint.ExpCone
import Conic.InteriorPoint.LorentzCone
import Conic.Stacked.Basic

/-!
# Scalings of the cones

At a slack and a multiplier inside a cone and its dual there is a symmetric matrix that takes the
multiplier to the slack and ties the steps of both to one another. For a self-dual cone it is the
square of the scaling that takes slack and multiplier to one and the same point; for the exponential
cone it is close to the Hessian of the dual barrier and also takes the gradient of the one barrier
to that of the other.

This is a part of the method that `bundled` runs in place of the numeric library
(`InteriorPoint.solver`); no result depends on it.
-/

namespace Conic

/-- The degree of the barrier, or the rank of the algebra of a self-dual cone. -/
def Cone.degree : Cone → Nat
  | .zero _ => 0
  | .nonneg rows => rows
  | .secondOrder _ => 1
  | .exponential => 3

/-- Whether the scaling of a cone is that of an algebra. -/
def Cone.isSymmetric : Cone → Bool
  | .exponential => false
  | _ => true

namespace InteriorPoint

/-- How a cone is scaled at a slack and a multiplier. -/
inductive ConeScaling where
  /-- There is no slack. -/
  | zero (rows : Nat)
  /-- Slack and multiplier; the matrix has their quotients on its diagonal. -/
  | orthant (s z : DenseVector Wide)
  /-- The size and the direction of the scaling, and the common image of slack and multiplier. -/
  | lorentz (size : Wide) (w image : DenseVector Wide)
  /-- The matrix, and slack and multiplier. -/
  | exponential (metric : Metric) (s z : Triple)

/-- A row that is added to a matrix, by its entries in the other columns and its diagonal entry. To
eliminate it again leaves the matrix less the square of the entries over the diagonal entry. -/
structure Link where
  entries : DenseVector Wide
  diagonal : Wide

namespace ConeScaling

/-- The scaling that leaves vectors as they are. -/
def identity : Cone → ConeScaling
  | .zero rows => .zero rows
  | .nonneg rows => .orthant (List.replicate rows 1) (List.replicate rows 1)
  | .secondOrder rows => .lorentz 1 (LorentzCone.unit rows) (LorentzCone.unit rows)
  | .exponential => .exponential ⟨1, 0, 0, 1, 0, 1⟩ ExpCone.centre ExpCone.centre

/-- The matrix of an exponential cone: of all that take the multiplier to the slack and the one
gradient to the other, that closest to the Hessian of the dual barrier at the level of slack and
multiplier. Too close to the central path to tell the two conditions apart it is that Hessian
itself. -/
def expMetric (s z : Triple) : Metric :=
  let hessian := ExpCone.dualHessian z
  let gradient := ExpCone.dualGradient z
  let shadow := ExpCone.gradient s
  let inner := s.dot z
  let level := inner / 3
  let shadowLevel := shadow.dot gradient / 3
  let ds := s + gradient.scale level
  let dz := z + shadow.scale level
  let image := hessian.apply shadow
  let excess := shadow.dot image - 3 * shadowLevel * shadowLevel
  if .ratio 1 67108864 < (level * shadowLevel - 1).abs && .ratio 1 4503599627370496 < excess.abs &&
      inner.isPositive && (ds.dot dz).isPositive then
    let left := hessian + .square gradient (-3) +
      .square (gradient.scale shadowLevel - image) (-excess)
    let axis := z.cross shadow
    .square s inner + .square ds (ds.dot dz) +
      (Metric.square axis (axis.dot axis)).scale (level * left.norm)
  else hessian.scale level

/-- The scaling of a second-order cone; none if slack or multiplier is not inside. -/
def lorentzAt? (s z : DenseVector Wide) : Option ConeScaling :=
  let (a, b) := (LorentzCone.residual s, LorentzCone.residual z)
  if a.isPositive && b.isPositive then
    let (size, dualSize) := (a.sqrt, b.sqrt)
    let s' : DenseVector Wide := s.map (· / size)
    let z' : DenseVector Wide := z.map (· / dualSize)
    let sum : DenseVector Wide := match s', z' with
      | p :: v, q :: u => (p + q) :: subtract v u
      | _, _ => []
    let half := (LorentzCone.residual sum).sqrt / 2
    let tail := sum.tail.map (· / (2 * half))
    let (p, q) := (s'.entry 0, z'.entry 0)
    let imageTail :=
      List.zipWith (fun v u => ((half + q) * v + (half + p) * u) / (p + q + 2 * half)) s'.tail
        z'.tail
    some (.lorentz (size / dualSize).sqrt ((1 + dot tail tail).sqrt :: tail)
      (DenseVector.scale (half :: imageTail) (size * dualSize).sqrt))
  else none

/-- The scaling at a slack and a multiplier; none if they are not inside. For exponential cones it
may be asked to be the Hessian at the level `mu`. -/
def at? (plainLevel : Option Wide) (cone : Cone) (s z : DenseVector Wide) : Option ConeScaling :=
  match cone with
  | .zero rows => some (.zero rows)
  | .nonneg _ => some (.orthant s z)
  | .secondOrder _ => lorentzAt? s z
  | .exponential =>
    let (s, z) := (Triple.ofVector s, Triple.ofVector z)
    let metric := match plainLevel with
      | some mu => (ExpCone.dualHessian z).scale mu
      | none => expMetric s z
    some (.exponential metric s z)

/-- The rows of the matrix from the diagonal on, zeros at the end left out, as far as it does not
come from `links`. There are none for the zero cone. -/
def upperRows : ConeScaling → List UpperRow
  | .zero _ => []
  | .orthant s z => List.zipWith (fun a b => ⟨a / b, []⟩) s z
  | .lorentz size w _ =>
    let square := size * size
    let head := w.entry 0
    w.mapIdx fun k _ => ⟨if k = 0 then square / (4 * head * head - 1) else square, []⟩
  | .exponential m _ _ => m.upperRows

/-- What makes the matrix of a second-order cone dense: the square of one column is taken from its
diagonal part and that of another is added. They are weighted so that what the first one leaves is
positive, which keeps all pivots away from zero. -/
def links : ConeScaling → List Link
  | .lorentz size w _ =>
    let square := size * size
    let head := w.entry 0
    let less := head * head - 3 / 4
    let more := 2 + 1 / less
    [⟨DenseVector.scale (0 :: w.tail) square, square * less⟩,
      ⟨DenseVector.scale (2 * head :: DenseVector.scale w.tail more) square, -square * more⟩]
  | _ => []

/-- The product of the matrix with a vector. -/
def apply : ConeScaling → DenseVector Wide → DenseVector Wide
  | .zero rows, _ => DenseVector.zeros rows
  | .orthant s z, v => mulEntries (divEntries s z) v
  | .lorentz size w _, v =>
    let along := 2 * dot w v
    match w, v with
    | a :: w, p :: v =>
      DenseVector.scale ((a * along - p) :: List.zipWith (fun b q => b * along + q) w v)
        (size * size)
    | _, _ => []
  | .exponential m _ _, v => (m.apply (.ofVector v)).toVector

/-- The scaled vector, for a second-order cone. -/
def stretch (size : Wide) : DenseVector Wide → DenseVector Wide → DenseVector Wide
  | a :: w, p :: v =>
    let along := dot w v
    DenseVector.scale ((a * p + along) :: addScaled v (p + along / (1 + a)) w) size
  | _, _ => []

/-- The vector that is stretched to the one given. -/
def unstretch (size : Wide) : DenseVector Wide → DenseVector Wide → DenseVector Wide
  | a :: w, p :: v =>
    let along := dot w v
    ((a * p - along) :: addScaled v (along / (1 + a) - p) w).map (· / size)
  | _, _ => []

/-- The slack step, negated, that leads to the central point of level `target` while the multiplier
stays. It allows for the second-order effect of a step `ds` and `dz`. -/
def centring (target : Wide) (ds dz : DenseVector Wide) : ConeScaling → DenseVector Wide
  | .zero rows => DenseVector.zeros rows
  | .orthant s z =>
    divEntries ((mulEntries s z).add (mulEntries ds dz) |>.map (· - target)) z
  | .lorentz size w image =>
    let effect := LorentzCone.product (unstretch size w ds) (stretch size w dz)
    let need := (effect.add (LorentzCone.product image image)).modify 0 (· - target)
    stretch size w (LorentzCone.quotient image need)
  | .exponential _ s z =>
    let along := (ExpCone.dualHessian z).solve (.ofVector ds)
    let effect := ExpCone.halfThirdDerivative z along (.ofVector dz)
    (s + (ExpCone.dualGradient z).scale target - effect).toVector

end ConeScaling

end InteriorPoint

end Conic
