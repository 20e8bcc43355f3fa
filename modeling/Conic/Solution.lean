import Conic.Constraint
import Conic.SolveStatus

/-!
# Results and solutions

A solver hands back a raw result: vectors in the order of the rows, and a summary. A solution says
the same of the problem: values by variable and dual values by constraint. It has a value for the
objective, values and dual values together, or none of them.
-/

namespace Conic

/-- What a solver hands back. -/
structure RawResult (α : Type) where
  /-- The decision variables. -/
  x : DenseVector α
  /-- The duals of the equality rows. -/
  y : DenseVector α
  /-- The duals of the cone rows. -/
  z : DenseVector α
  exitCode : Int
  primalCost : α
  dualCost : α
  iterations : Nat
  setupTime : Float
  solveTime : Float

/-- Statistics of a run, reported whatever its status. -/
structure SolveStats where
  solveTime : Float
  setupTime : Float
  iterations : Nat

/-- What is known about a problem after a run. -/
structure Solution (α : Type) where
  status : SolveStatus
  /-- The value of the objective, its constant included. -/
  optimalValue : Option α
  values : Option (SortedMap VarId (DenseVector α))
  duals : Option (SortedMap ConstrId (DenseVector α))
  stats : SolveStats

namespace Solution

variable {α : Type}

/-- The solution of a status that comes without one. -/
def failure (status : SolveStatus) (stats : SolveStats) : Solution α :=
  ⟨status, none, none, none, stats⟩

/-- Whether there are values. -/
def hasSolution (s : Solution α) : Bool := s.values.isSome

/-- The value of a variable. -/
def value? (s : Solution α) (v : VarId) : Option (DenseVector α) := s.values.bind (·.find? v)

/-- The dual value of a constraint. -/
def dual? (s : Solution α) (c : ConstrId) : Option (DenseVector α) := s.duals.bind (·.find? c)

end Solution

end Conic
