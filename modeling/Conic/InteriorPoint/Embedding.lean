import Conic.InteriorPoint.StepLength
import Conic.InteriorPoint.Units

/-!
# The homogeneous embedding

A program and its dual are solved together through the homogeneous equations

    A'z + c τ = 0,   A x + s = b τ,   c·x + b·z + κ = 0

with `s` in the product of the cones, `z` in the dual product and `τ`, `κ` not negative. A solution
with `τ > 0` gives optimal points after division by `τ`; one with `κ > 0` proves that the program or
its dual has no feasible point. This module holds the points, how far they are from the equations,
how far they can go, and the point that a run begins with.

This is a part of the method that `bundled` runs in place of the numeric library
(`InteriorPoint.solver`); no result depends on it.
-/

namespace Conic.InteriorPoint

/-- A point of the embedding, or a direction between two points. -/
structure Point where
  x : DenseVector Wide
  z : DenseVector Wide
  s : DenseVector Wide
  tau : Wide
  kappa : Wide

/-- `q + a * d`. -/
def Point.move (q : Point) (a : Wide) (d : Point) : Point :=
  ⟨addScaled q.x a d.x, addScaled q.z a d.z, addScaled q.s a d.s,
    q.tau + a * d.tau, q.kappa + a * d.kappa⟩

/-! ## Residuals -/

/-- The terms of the equations at a point. -/
structure Residuals where
  /-- `-A'z`. -/
  pull : DenseVector Wide
  /-- `A x + s`. -/
  rows : DenseVector Wide
  /-- `c·x`. -/
  cost : Wide
  /-- `b·z`. -/
  bound : Wide
  /-- `-A'z - c τ`. -/
  x : DenseVector Wide
  /-- `A x + s - b τ`. -/
  z : DenseVector Wide
  /-- `c·x + b·z + κ`. -/
  tau : Wide

/-- The terms of the equations at a point. -/
def residuals (p : DenseProgram) (q : Point) : Residuals :=
  let pull := (mulVec p.cols q.z).neg
  let rows := (mulVec p.rows q.x).add q.s
  let cost := dot p.c q.x
  let bound := dot p.b q.z
  { pull, rows, cost, bound
    x := addScaled pull (-q.tau) p.c
    z := addScaled rows (-q.tau) p.b
    tau := cost + bound + q.kappa }

/-- The sum of the degrees, that of the pair `τ`, `κ` included. -/
def totalDegree (p : DenseProgram) : Wide :=
  .ofNat (p.cones.foldl (fun sum cone => sum + Cone.degree cone) 1)

/-- The level of a point on the central path. -/
def level (p : DenseProgram) (q : Point) : Wide :=
  (dot q.s q.z + q.tau * q.kappa) / totalDegree p

/-- Whether all cones have the scaling of an algebra. -/
def isSymmetric (p : DenseProgram) : Bool := p.cones.all Cone.isSymmetric

/-! ## Cone by cone -/

/-- What belongs to one cone of a point and of a direction from it. -/
structure ConePart where
  cone : Cone
  s : DenseVector Wide
  z : DenseVector Wide
  ds : DenseVector Wide
  dz : DenseVector Wide

/-- A point and a direction from it, cone by cone. -/
def coneParts (p : DenseProgram) (q d : Point) : List ConePart :=
  List.zipWith (fun ((cone, s), (_, z)) ((_, ds), (_, dz)) => ⟨cone, s, z, ds, dz⟩)
    ((pieces p.cones q.s).zip (pieces p.cones q.z)) ((pieces p.cones d.s).zip (pieces p.cones d.z))

/-- The longest step, at most one, that stays inside all cones. Where some are not symmetric it is
kept off the boundary of the others. -/
def longestStep (p : DenseProgram) (q d : Point) : Wide :=
  let shorten (limit : Wide) (parts : List ConePart) : Wide :=
    parts.foldl (fun a part => coneStep part.cone a part.s part.ds part.z part.dz) limit
  let (symmetric, others) := (coneParts p q d).partition (·.cone.isSymmetric)
  let a := shorten (nonnegStep 1 [q.tau, q.kappa] [d.tau, d.kappa]) symmetric
  if others.isEmpty then a else shorten (a.min (.ratio 99 100)) others

/-- The barrier of a point, large where it is far from the central path. -/
def barrier (p : DenseProgram) (q : Point) : Wide :=
  let logs (v : DenseVector Wide) : Wide := DenseVector.sum (v.map Wide.log)
  (coneParts p q q).foldl (fun sum part =>
      match part.cone with
      | .zero _ => sum
      | .nonneg _ => sum - logs part.s - logs part.z
      | .secondOrder _ =>
        sum - (LorentzCone.residual part.s * LorentzCone.residual part.z).log / 2
      | .exponential =>
        sum + ExpCone.barrier (.ofVector part.s) + ExpCone.dualBarrier (.ofVector part.z))
    (totalDegree p * (level p q).log - q.tau.log - q.kappa.log)

end Conic.InteriorPoint
