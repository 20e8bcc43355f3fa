import Conic.DenseVector
import Conic.SparseMatrix.Basic

/-!
# Stacked programs

The form in which the bundled solver takes a program: one matrix and one right-hand side for all
rows, and a list of cones that share the rows out from the top. A point `x` is feasible when the
slack `rhs - matrix * x` lies in the product of the cones; the objective, with a quadratic and a
linear part, is minimized.

A solver is any function from settings and a stacked program to an outcome, or to none when it
breaks down.
-/

namespace Conic

/-- A cone of the bundled solver, with the number of rows it takes where that is not fixed. -/
inductive Cone where
  /-- Only the origin; its dual is everything. -/
  | zero (rows : Nat)
  /-- No entry below zero. -/
  | nonneg (rows : Nat)
  /-- The first entry bounds the length of the rest. -/
  | secondOrder (rows : Nat)
  /-- The closure of the `(x, y, z)` with `0 < y` and `y * exp (x / y) ≤ z`. -/
  | exponential
  deriving DecidableEq, Repr

/-- The number of rows a cone takes. -/
def Cone.rows : Cone → Nat
  | .zero rows => rows
  | .nonneg rows => rows
  | .secondOrder rows => rows
  | .exponential => 3

/-- Minimize `x · (quadratic * x) / 2 + objective · x` with `rhs - matrix * x` in the product of the
cones. -/
structure StackedProgram (α : Type) where
  quadratic : SparseMatrix α
  objective : DenseVector α
  matrix : SparseMatrix α
  rhs : DenseVector α
  cones : List Cone

/-- When a solver may stop, and how good a point it then needs. -/
structure SolverSettings where
  /-- The most iterations to take. -/
  maxIterations : Nat := 200
  /-- Seconds after which to stop. -/
  timeLimit : Float := 1.0 / 0.0
  /-- The duality gap of a solved program, absolute. -/
  gapAbs : Float := 1e-8
  /-- The duality gap of a solved program, relative to the objective. -/
  gapRel : Float := 1e-8
  /-- The feasibility error of a solved program. -/
  feasibility : Float := 1e-8
  /-- The absolute gap of an almost solved program. -/
  reducedGapAbs : Float := 5e-5
  /-- The relative gap of an almost solved program. -/
  reducedGapRel : Float := 5e-5
  /-- The feasibility error of an almost solved program. -/
  reducedFeasibility : Float := 1e-4

/-- How a run of a solver ended. -/
inductive Verdict where
  | solved
  | primalInfeasible
  | dualInfeasible
  | almostSolved
  | almostPrimalInfeasible
  | almostDualInfeasible
  | iterationLimit
  | timeLimit
  | numericalError
  | insufficientProgress
  | unsolved
  deriving DecidableEq, Repr

/-- What a solver hands back. -/
structure SolverOutcome (α : Type) where
  verdict : Verdict
  /-- The point reached. -/
  x : DenseVector α
  /-- The multipliers of the rows. -/
  z : DenseVector α
  primalObjective : α
  dualObjective : α
  iterations : Nat
  setupTime : Float
  solveTime : Float

/-- A numeric method for stacked programs. It may break down, and then there is no outcome. -/
abbrev ConeSolver (α : Type) := SolverSettings → StackedProgram α → Option (SolverOutcome α)

end Conic
