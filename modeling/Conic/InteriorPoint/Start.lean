import Conic.InteriorPoint.NewtonSystem

/-!
# The first point

If all cones are symmetric, a run begins with the least slacks and the least multipliers that fulfil
the equations, moved inside the cones; else with the units of the cones.

This is a part of the method that `bundled` runs in place of the numeric library
(`InteriorPoint.solver`); no result depends on it.
-/

namespace Conic.InteriorPoint

/-- The point of a cone that a run begins with if some cone is not symmetric. -/
def coneCentre : Cone → DenseVector Wide
  | .zero rows => DenseVector.zeros rows
  | .nonneg rows => List.replicate rows 1
  | .secondOrder rows => LorentzCone.unit rows
  | .exponential => ExpCone.centre.toVector

/-- How far a vector is inside a symmetric cone, part by part. -/
def margins : Cone → DenseVector Wide → List Wide
  | .nonneg _, v => v
  | .secondOrder _, v => [LorentzCone.margin v]
  | _, _ => []

/-- Add a multiple of the unit of a symmetric cone. The zero cone has room for multipliers only. -/
def shifted (dual : Bool) (a : Wide) : Cone → DenseVector Wide → DenseVector Wide
  | .zero rows, v => if dual then v else DenseVector.zeros rows
  | .nonneg _, v => v.shift a
  | _, v => v.modify 0 (· + a)

/-- Move a vector along the units of the cones until its least margin is at least one, and at least
a tenth of what the positive margins come to over the total degree. -/
def movedInside (p : DenseProgram) (dual : Bool) (v : DenseVector Wide) : DenseVector Wide :=
  let all := (pieces p.cones v).flatMap fun (cone, w) => margins cone w
  let wanted := Wide.max 1 (DenseVector.sum (all.map (Wide.max 0)) / (10 * totalDegree p))
  let a := wanted - all.foldl Wide.min wanted
  (pieces p.cones v).flatMap fun (cone, w) => shifted dual a cone w

/-- The point that a run begins with. -/
def start (p : DenseProgram) : Point :=
  let (noCost, noRhs) := (DenseVector.zeros p.c.length, DenseVector.zeros p.b.length)
  if isSymmetric p then
    let k := NewtonSystem.of p (p.cones.map ConeScaling.identity)
    let (x, s) := k.solve noCost p.b
    let (_, z) := k.solve p.c.neg noRhs
    ⟨x, movedInside p true z, movedInside p false s.neg, 1, 1⟩
  else
    let centre := p.cones.flatMap coneCentre
    ⟨noCost, centre, centre, 1, 1⟩

end Conic.InteriorPoint
