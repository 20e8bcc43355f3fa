import Conic.SparseMatrix.Rows
import Conic.Stacked.Basic

/-!
# Vacuous rows

A nonnegative row with a right-hand side that counts as infinite holds at every point. Such rows are
left out before a program is solved, and their multipliers are zero. All other right-hand sides are
cut off at the same bound.

This is a part of the method that `bundled` runs in place of the numeric library
(`InteriorPoint.solver`); no result depends on it.
-/

namespace Conic.InteriorPoint

/-- The right-hand side that counts as infinite. -/
def infiniteBound : Float := 1e20

/-- Whether a bound is infinite, but for rounding. -/
def isInfiniteBound (rhs : Float) : Bool := rhs > (1 - 2.220446049250313e-15) * infiniteBound

/-- For each row whether it says anything. -/
def tellingRows : List Cone → DenseVector Float → List Bool
  | [], _ => []
  | cone :: rest, rhs =>
    let own := rhs.take cone.rows
    let telling := match cone with
      | .nonneg _ => own.map (!isInfiniteBound ·)
      | _ => own.map fun _ => true
    telling ++ tellingRows rest (rhs.drop cone.rows)

/-- The cones that share out the rows that are kept. -/
def tellingCones : List Cone → List Bool → List Cone
  | [], _ => []
  | cone :: rest, kept =>
    let own := match cone with
      | .nonneg rows => .nonneg ((kept.take rows).countP id)
      | _ => cone
    own :: tellingCones rest (kept.drop cone.rows)

/-- The values of a list that are kept. -/
def keep {α : Type} : List Bool → List α → List α
  | true :: kept, a :: rest => a :: keep kept rest
  | false :: kept, _ :: rest => keep kept rest
  | _, _ => []

/-- A vector over the rows that are kept, with zeros put in for the others. -/
def spread {α : Type} [Zero α] : List Bool → DenseVector α → DenseVector α
  | [], _ => []
  | true :: kept, v => v.headD 0 :: spread kept v.tail
  | false :: kept, v => 0 :: spread kept v

/-- A program without its vacuous rows, given which rows say anything. -/
def restrict (p : StackedProgram Float) (kept : List Bool) : StackedProgram Float where
  quadratic := p.quadratic
  objective := p.objective
  matrix := p.matrix.selectRows (keep kept (List.range p.rhs.length))
  rhs := (keep kept p.rhs).map fun b => if b > infiniteBound then infiniteBound else b
  cones := tellingCones p.cones kept

end Conic.InteriorPoint
