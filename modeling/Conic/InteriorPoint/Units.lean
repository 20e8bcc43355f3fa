import Conic.InteriorPoint.Linear
import Conic.SparseMatrix.Dense
import Conic.Stacked.Basic

/-!
# Units

The method works on a program whose coefficients are of moderate size: each unknown and each row has
a unit of its own, found in a few rounds that bring the largest coefficient of each closer to one.
The rows of a cone that ties them together share one unit, since only then does the cone stay what
it is.

This is a part of the method that `bundled` runs in place of the numeric library
(`InteriorPoint.solver`); no result depends on it.
-/

namespace Conic.InteriorPoint

/-- A stacked program written out densely, by rows and by columns. -/
structure DenseProgram where
  c : DenseVector Wide
  rows : List (DenseVector Wide)
  cols : List (DenseVector Wide)
  b : DenseVector Wide
  cones : List Cone

/-- A stacked program written out. -/
def DenseProgram.ofStacked (p : StackedProgram Float) : DenseProgram :=
  let rows := p.matrix.toDense.rows.map widen
  { c := widen p.objective
    rows
    cols := transpose p.objective.length rows
    b := widen p.rhs
    cones := p.cones }

/-- Cut a vector into the pieces that belong to the cones. -/
def pieces {α : Type} : List Cone → List α → List (Cone × List α)
  | [], _ => []
  | cone :: rest, v => (cone, v.take cone.rows) :: pieces rest (v.drop cone.rows)

/-- The factors between a program and the one that the method works on. -/
structure Units where
  unknowns : DenseVector Wide
  rows : DenseVector Wide

namespace Units

/-- The smallest factor. -/
def least : Wide := .ratio 1 10000

/-- The largest factor. -/
def greatest : Wide := 10000

/-- What to multiply the present factors by, given the largest coefficients that they leave. -/
def correction (factors sizes : DenseVector Wide) : DenseVector Wide :=
  List.zipWith (fun factor size =>
      let wanted := if size.isZero then 1 else 1 / size.sqrt
      (least / factor).max ((greatest / factor).min wanted))
    factors sizes

/-- One factor for all rows of a cone, their mean, unless the rows stand for themselves. -/
def shared (cones : List Cone) (factors : DenseVector Wide) : DenseVector Wide :=
  (pieces cones factors).flatMap fun (cone, v) =>
    match cone with
    | .zero _ | .nonneg _ => v
    | _ => List.replicate v.length (DenseVector.sum v / .ofNat v.length)

/-- The coefficients of a program in these units. -/
def coefficients (k : Units) (rows : List (DenseVector Wide)) : List (DenseVector Wide) :=
  List.zipWith (fun (row : DenseVector Wide) a => mulEntries (row.scale a) k.unknowns) rows k.rows

/-- Improve the units of a matrix of `n` columns by so many rounds, given its rows in these
units. -/
def improved (n : Nat) (k : Units) : Nat → List (DenseVector Wide) → Units
  | 0, _ => k
  | left + 1, rows =>
    let step : Units :=
      { unknowns := correction k.unknowns ((transpose n rows).map maxNorm)
        rows := correction k.rows (rows.map maxNorm) }
    improved n ⟨mulEntries k.unknowns step.unknowns, mulEntries k.rows step.rows⟩ left
      (step.coefficients rows)

/-- The units for a program. -/
def ofProgram (p : DenseProgram) : Units :=
  let k := improved p.c.length ⟨p.c.map fun _ => 1, p.b.map fun _ => 1⟩ 10 p.rows
  { k with rows := shared p.cones k.rows }

/-- A program in these units. -/
def apply (k : Units) (p : DenseProgram) : DenseProgram :=
  let rows := k.coefficients p.rows
  { p with
    c := mulEntries k.unknowns p.c
    rows
    cols := transpose p.c.length rows
    b := mulEntries k.rows p.b }

end Units

end Conic.InteriorPoint
