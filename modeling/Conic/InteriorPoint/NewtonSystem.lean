import Conic.InteriorPoint.Embedding
import Conic.InteriorPoint.Factor

/-!
# Newton systems

A Newton step of the embedding comes down to two systems `A'z = f`, `A x - H z = g` with one
symmetric matrix, where `H` is put together from the scalings of the cones. The slacks of the step
follow from its multipliers, and the change of `τ` is what the last equation leaves open.

This is a part of the method that `bundled` runs in place of the numeric library
(`InteriorPoint.solver`); no result depends on it.
-/

namespace Conic.InteriorPoint

/-- What is added to the size of the diagonal entries of the unknowns and of the zero cones, so that
no pivot vanishes when rows repeat one another. It is far below what matters to a solution, and no
less than the rounding errors of the data. -/
def perturbation : Wide := .ratio 1 10000000000000000

/-- The system at given scalings, factored. -/
structure NewtonSystem where
  program : DenseProgram
  scalings : List ConeScaling
  pivots : List Pivot

/-- Whether a row belongs to a zero cone, row by row. -/
def isFree (cones : List Cone) : List Bool :=
  cones.flatMap fun cone =>
    match cone with
    | .zero rows => List.replicate rows true
    | _ => List.replicate cone.rows false

/-- The values of a list at the rows of zero cones, or at the others. -/
def select {α : Type} (flags : List Bool) (free : Bool) (values : List α) : List α :=
  (flags.zip values).filterMap fun (flag, a) => if flag = free then some a else none

/-- Put together what `select` takes apart: first what belongs to the zero cones. -/
def weave {α : Type} : List Bool → List α → List α → List α
  | true :: flags, a :: free, others => a :: weave flags free others
  | false :: flags, free, a :: others => a :: weave flags free others
  | _, _, _ => []

namespace NewtonSystem

/-- The entries that the rows of some scalings have in the columns of the links of all, `before` of
which belong to earlier scalings and `after` to these. -/
def linkEntries : Nat → Nat → List ConeScaling → List (DenseVector Wide)
  | _, _, [] => []
  | before, after, scaling :: rest =>
    let own := scaling.links
    let left := after - own.length
    (transpose scaling.upperRows.length (own.map Link.entries)).map
        (fun v => DenseVector.zeros before ++ v ++ DenseVector.zeros left) ++
      linkEntries (before + own.length) left rest

/-- The rows of the perturbed matrix from the diagonal on: those of the scalings, those of the
unknowns, those of the links and those of the zero cones. -/
def upperRows (p : DenseProgram) (scalings : List ConeScaling) : List UpperRow :=
  let flags := isFree p.cones
  let metrics := scalings.flatMap ConeScaling.upperRows
  let links := scalings.flatMap ConeScaling.links
  let (m, n, l) := (metrics.length, p.c.length, links.length)
  let free := flags.length - m
  let scaled := metrics.zip ((select flags false p.rows).zip (linkEntries 0 l scalings))
  let top := scaled.zipIdx.map fun ((metric, coeffs, entries), k) =>
    { diagonal := -metric.diagonal
      rest := DenseVector.neg metric.rest ++ DenseVector.zeros (m - 1 - k - metric.rest.length) ++
        coeffs ++ DenseVector.neg entries ++ DenseVector.zeros free : UpperRow }
  let middle := p.cols.zipIdx.map fun (col, j) =>
    { diagonal := perturbation
      rest := DenseVector.zeros (n - 1 - j + l) ++ select flags true col : UpperRow }
  let linked := links.zipIdx.map fun (link, k) =>
    { diagonal := -link.diagonal, rest := DenseVector.zeros (l - 1 - k + free) : UpperRow }
  let bottom := (List.range free).map fun k =>
    { diagonal := -perturbation, rest := DenseVector.zeros (free - 1 - k) : UpperRow }
  top ++ middle ++ linked ++ bottom

/-- The system at given scalings. -/
def of (p : DenseProgram) (scalings : List ConeScaling) : NewtonSystem :=
  ⟨p, scalings, UpperRow.factor (upperRows p scalings)⟩

/-- The matrices of the scalings applied to a vector over the rows. -/
def metric (k : NewtonSystem) (v : DenseVector Wide) : DenseVector Wide :=
  (List.zipWith (fun (scaling : ConeScaling) (_, w) => scaling.apply w)
    k.scalings (pieces k.program.cones v)).flatten

/-- The unknowns and the multipliers of the perturbed system. -/
def solvePerturbed (k : NewtonSystem) (f g : DenseVector Wide) :
    DenseVector Wide × DenseVector Wide :=
  let flags := isFree k.program.cones
  let others := select flags false g
  let links := (k.scalings.flatMap ConeScaling.links).map fun _ => 0
  let v := solveFactored k.pivots (others ++ f ++ links ++ select flags true g)
  let (top, rest) := v.splitAt others.length
  let (x, rest) := rest.splitAt f.length
  (x, weave flags (rest.drop links.length) top)

/-- Unknowns and multipliers, and what they leave of the right-hand side. -/
structure Attempt where
  x : DenseVector Wide
  z : DenseVector Wide
  leftX : DenseVector Wide
  leftZ : DenseVector Wide

/-- The largest magnitude that is left. -/
def Attempt.error (a : Attempt) : Wide := (maxNorm a.leftX).max (maxNorm a.leftZ)

/-- The unknowns `x` and the multipliers `z` as an attempt at the right-hand side `f`, `g`. -/
def attempt (k : NewtonSystem) (f g x z : DenseVector Wide) : Attempt where
  x
  z
  leftX := subtract f (mulVec k.program.cols z)
  leftZ := (subtract g (mulVec k.program.rows x)).add (k.metric z)

/-- Improve an attempt by solving for what is left, until that is no more than `allowed` or no
longer gets smaller by half. -/
def refined (k : NewtonSystem) (f g : DenseVector Wide) (allowed : Wide) : Nat → Attempt → Attempt
  | 0, a => a
  | fuel + 1, a =>
    if a.error < allowed then a
    else
      let (dx, dz) := k.solvePerturbed a.leftX a.leftZ
      let next := k.attempt f g (a.x.add dx) (a.z.add dz)
      if next.error < a.error / 2 then refined k f g allowed fuel next else a

/-- The unknowns and the multipliers of the system. -/
def solve (k : NewtonSystem) (f g : DenseVector Wide) : DenseVector Wide × DenseVector Wide :=
  let (x, z) := k.solvePerturbed f g
  let allowed := perturbation * perturbation * (maxNorm f).max (maxNorm g)
  let best := k.refined f g allowed 40 (k.attempt f g x z)
  (best.x, best.z)

/-- What a step has to achieve: the residuals to be taken away, the change of `τ κ` and the slack
step while the multipliers stay, negated. -/
structure Target where
  x : DenseVector Wide
  z : DenseVector Wide
  tau : Wide
  kappa : Wide
  slack : DenseVector Wide

/-- The step from a point to a target. The pair `constant` solves the system for the constant terms
of the equations. -/
def step (k : NewtonSystem) (constant : DenseVector Wide × DenseVector Wide) (q : Point)
    (t : Target) : Point :=
  let p := k.program
  let (x1, z1) := k.solve t.x (subtract t.slack t.z)
  let (x2, z2) := constant
  let tau := (t.tau - t.kappa / q.tau + dot p.c x1 + dot p.b z1) /
    (q.kappa / q.tau - dot p.c x2 - dot p.b z2)
  let z := addScaled z1 tau z2
  { x := addScaled x1 tau x2
    z
    s := ((k.metric z).add t.slack).neg
    tau
    kappa := -(t.kappa + q.kappa * tau) / q.tau }

/-- The system solved for the constant terms of the equations. -/
def constant (k : NewtonSystem) : DenseVector Wide × DenseVector Wide :=
  k.solve k.program.c.neg k.program.b

end NewtonSystem

end Conic.InteriorPoint
