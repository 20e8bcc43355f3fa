import Conic.InteriorPoint.Factor

/-!
# The exponential cone

The cone of the `(x, y, z)` with `y * exp (x / y) ≤ z` and its dual, that of the `(u, v, w)` with
`-u * exp (v / u - 1) ≤ w`. Both have logarithmic barriers, conjugate to one another. That of the
dual is `-log r - log (-u) - log w` with `r = v - u - u * log (-w / u)`; that of the cone takes the
solution `ω` of `ω + log ω = t`.

This is a part of the method that `bundled` runs in place of the numeric library
(`InteriorPoint.solver`); no result depends on it.
-/

namespace Conic.InteriorPoint

/-- A triple of numbers. -/
structure Triple where
  x : Wide
  y : Wide
  z : Wide

namespace Triple

/-- The triple of the first three entries of a vector. -/
def ofVector (v : DenseVector Wide) : Triple := ⟨v.entry 0, v.entry 1, v.entry 2⟩

/-- The entries. -/
def toVector (t : Triple) : DenseVector Wide := [t.x, t.y, t.z]

instance : Zero Triple := ⟨⟨0, 0, 0⟩⟩
instance : Add Triple := ⟨fun s t => ⟨s.x + t.x, s.y + t.y, s.z + t.z⟩⟩
instance : Sub Triple := ⟨fun s t => ⟨s.x - t.x, s.y - t.y, s.z - t.z⟩⟩

/-- Each entry times a number. -/
def scale (t : Triple) (a : Wide) : Triple := ⟨a * t.x, a * t.y, a * t.z⟩

/-- The inner product. -/
def dot (s t : Triple) : Wide := s.x * t.x + s.y * t.y + s.z * t.z

/-- The vector product. -/
def cross (s t : Triple) : Triple :=
  ⟨s.y * t.z - s.z * t.y, s.z * t.x - s.x * t.z, s.x * t.y - s.y * t.x⟩

end Triple

/-- A symmetric matrix of three rows, by its upper triangle. -/
structure Metric where
  xx : Wide
  xy : Wide
  xz : Wide
  yy : Wide
  yz : Wide
  zz : Wide

namespace Metric

/-- The product with a triple. -/
def apply (m : Metric) (t : Triple) : Triple :=
  ⟨m.xx * t.x + m.xy * t.y + m.xz * t.z, m.xy * t.x + m.yy * t.y + m.yz * t.z,
    m.xz * t.x + m.yz * t.y + m.zz * t.z⟩

/-- Each entry times a number. -/
def scale (m : Metric) (a : Wide) : Metric :=
  ⟨a * m.xx, a * m.xy, a * m.xz, a * m.yy, a * m.yz, a * m.zz⟩

instance : Add Metric :=
  ⟨fun m n => ⟨m.xx + n.xx, m.xy + n.xy, m.xz + n.xz, m.yy + n.yy, m.yz + n.yz, m.zz + n.zz⟩⟩

/-- The product of the column `t` with the row `t`, over a number. -/
def square (t : Triple) (a : Wide) : Metric :=
  (⟨t.x * t.x, t.x * t.y, t.x * t.z, t.y * t.y, t.y * t.z, t.z * t.z⟩ : Metric).scale (1 / a)

/-- The length of the vector of all nine entries. -/
def norm (m : Metric) : Wide :=
  (m.xx * m.xx + m.yy * m.yy + m.zz * m.zz + 2 * (m.xy * m.xy + m.xz * m.xz + m.yz * m.yz)).sqrt

/-- The rows from the diagonal on. -/
def upperRows (m : Metric) : List UpperRow := [⟨m.xx, [m.xy, m.xz]⟩, ⟨m.yy, [m.yz]⟩, ⟨m.zz, []⟩]

/-- The triple whose product with a regular matrix is given. -/
def solve (m : Metric) (t : Triple) : Triple :=
  .ofVector (solveFactored (UpperRow.factor m.upperRows) t.toVector)

end Metric

/-- The `ω` with `ω + log ω = t`, for `t` from one on: steps of the fourth order from a close
guess. -/
def omega (t : Wide) : Wide :=
  let p := t - 1
  let start :=
    if t < 4 then 1 + p / 2 + p * p / 16 - p * p * p / 192
    else t - t.log + t.log / t
  (List.range 3).foldl (fun w _ =>
    let r := t - w - w.log
    let q := (1 + w) * (1 + w + 2 * r / 3)
    w * (1 + r / (1 + w) * (q - r / 2) / (q - r))) start

namespace ExpCone

/-- The slack and the multiplier that a run begins with: each is the negated gradient of the barrier
at the other. -/
def centre : Triple :=
  ⟨-.ratio 1051383945322714 1000000000000000, .ratio 556409619469370 1000000000000000,
    .ratio 1258967884768947 1000000000000000⟩

/-- Whether a slack lies inside the cone. -/
def isInterior (s : Triple) : Bool :=
  s.y.isPositive && s.z.isPositive && s.x < s.y * (s.z / s.y).log

/-- The logarithm `l = log (-w / u)` and the residue `r = v - u - u * l` of a multiplier. -/
def parts (t : Triple) : Wide × Wide :=
  let l := (-t.z / t.x).log
  (l, t.y - t.x - t.x * l)

/-- Whether a multiplier lies inside the dual cone. -/
def isDualInterior (t : Triple) : Bool :=
  (-t.x).isPositive && t.z.isPositive && (parts t).2.isPositive

/-- The `ω` of a slack. -/
def omegaOf (s : Triple) : Wide := omega (1 - s.x / s.y + (s.z / s.y).log)

/-- The barrier of the cone. -/
def barrier (s : Triple) : Wide :=
  let w := omegaOf s
  (w / ((w - 1) * (w - 1))).log - 2 * s.y.log - s.z.log - 3

/-- The gradient of the barrier of the cone. -/
def gradient (s : Triple) : Triple :=
  let w := omegaOf s
  let x := 1 / ((w - 1) * s.y)
  ⟨x, x + x * (w * s.y / s.z).log - 1 / s.y, w / ((1 - w) * s.z)⟩

/-- The barrier of the dual cone. -/
def dualBarrier (t : Triple) : Wide := -((parts t).2.log + (-t.x).log + t.z.log)

/-- The gradient of the barrier of the dual cone. -/
def dualGradient (t : Triple) : Triple :=
  let (l, r) := parts t
  ⟨l / r - 1 / t.x, -1 / r, (t.x / r - 1) / t.z⟩

/-- The Hessian of the barrier of the dual cone. -/
def dualHessian (t : Triple) : Metric :=
  let (l, r) := parts t
  let (u, w) := (t.x, t.z)
  let (a, c) := (l / r, u / r / w)
  { xx := a * a - 1 / (u * r) + 1 / (u * u)
    xy := -(a / r)
    xz := (t.y - u) / (r * r * w)
    yy := 1 / (r * r)
    yz := -(c / r)
    zz := c * c - c / w + 1 / (w * w) }

/-- Half the third derivative of the barrier of the dual cone at `t`, in the directions `a` and
`b`. -/
def halfThirdDerivative (t a b : Triple) : Triple :=
  let (l, r) := parts t
  let (u, w) := (t.x, t.z)
  let slope : Triple := ⟨-l, 1, -u / w⟩
  let bend (d : Triple) : Triple := ⟨d.x / u - d.z / w, 0, d.z * u / (w * w) - d.x / w⟩
  let xx := a.x * b.x
  let xz := a.x * b.z + a.z * b.x
  let zz := a.z * b.z
  let twist : Triple := ⟨zz / (w * w) - xx / (u * u), 0, xz / (w * w) - 2 * u * zz / (w * w * w)⟩
  let outer : Triple := ⟨2 * xx / (u * u * u), 0, 2 * zz / (w * w * w)⟩
  let mixed :=
    slope.scale ((bend a).dot b) + (bend a).scale (slope.dot b) + (bend b).scale (slope.dot a)
  (mixed.scale (1 / (r * r)) - twist.scale (1 / r) -
    slope.scale (2 * slope.dot a * slope.dot b / (r * r * r)) - outer).scale (1 / 2)

end ExpCone

end Conic.InteriorPoint
