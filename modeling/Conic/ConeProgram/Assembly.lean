import Conic.ConeProgram.Rows
import Conic.Problem

/-!
# From problem to cone program

A problem becomes a cone program when it minimizes a single entry over one block of variables under
supported constraints. The constraints are sorted by kind, each kind keeping its order: equalities
give the rows of `A`, then upper bounds, second-order and exponential cones those of `G`.
-/

namespace Conic

open scoped Counting

variable {α : Type}

/-- The constraints of a problem sorted by kind. -/
structure ConstraintGroups (α : Type) where
  zero : List (Constraint α)
  nonpos : List (Constraint α)
  secondOrder : List (Constraint α)
  exponential : List (Constraint α)

namespace ConstraintGroups

/-- Sort constraints by kind, each kind in its order; fails at the first one of an unsupported
kind. -/
def ofList (cs : List (Constraint α)) : Except Error (ConstraintGroups α) :=
  match cs.find? (!·.kind.isSupported) with
  | some c => .error (.unsupportedConstraint c.kind c.id)
  | none =>
    .ok
      { zero := cs.filter (·.kind = .zero)
        nonpos := cs.filter (·.kind = .nonpos)
        secondOrder := cs.filter (·.kind = .secondOrder)
        exponential := cs.filter (·.kind = .exponential) }

/-- The constraints of the cone rows, in the order of the rows. -/
def cones (g : ConstraintGroups α) : List (Constraint α) :=
  g.nonpos ++ g.secondOrder ++ g.exponential

/-- How the cone rows are shared out. -/
def dims (g : ConstraintGroups α) : ConeDims where
  linear := (g.nonpos.map Constraint.size).sum
  secondOrder := g.secondOrder.flatMap (·.condition.coneSizes)
  exponential := (g.exponential.map (·.condition.numCones)).sum

end ConstraintGroups

/-- The column sums of a matrix as a vector, added in storage order. -/
def SparseMatrix.columnSums [Zero α] [Add α] (m : SparseMatrix α) : DenseVector α :=
  m.entries.foldl (fun v e => v.modify e.col (· + e.value)) (DenseVector.zeros m.ncols)

namespace Problem

/-- The only block of variables of a problem. -/
def singleVariable (p : Problem α) : Except Error Variable :=
  match p.blocks.entries with
  | [(id, size)] => .ok ⟨id, size, none⟩
  | [] => .error (.malformedObjective .noVariables)
  | vars => .error (.malformedObjective (.severalVariables vars.length))

/-- The objective, provided it is a single entry to be minimized. -/
def scalarObjective (p : Problem α) : Except Error (AffineExpr α) :=
  match p.sense with
  | .maximize => .error (.malformedObjective .maximization)
  | .minimize =>
    if p.objective.size = 1 then .ok p.objective
    else .error (.malformedObjective (.notScalar p.objective.size))

/-- Whether a problem has the form of a cone program: a single entry to be minimized over one block
of variables under supported constraints. -/
def isAccepted (p : Problem α) : Bool :=
  p.sense = .minimize && p.objective.size = 1 && p.blocks.size = 1 &&
    p.constraints.all (·.kind.isSupported)

/-- The cone program of a problem and what it takes to map a result back. -/
def toConeProgram [Zero α] [One α] [Add α] [Mul α] [Neg α] (p : Problem α) :
    Except Error (ConeProgram α × Recovery α) := do
  let v ← p.singleVariable
  let objective ← p.scalarObjective
  let groups ← ConstraintGroups.ofList p.constraints
  let row ← objective.rowsOver v
  let offset := row.offset.entry 0
  let equality ← Constraint.stackedRows groups.zero v .standard
  let cone ← Constraint.stackedRows groups.cones v .standard
  return (
    { c := row.matrix.columnSums
      offset
      a := equality.matrix
      b := equality.offset
      g := cone.matrix
      h := cone.offset
      dims := groups.dims },
    { varId := v.id
      varSize := v.size
      offset
      equalities := groups.zero.map .ofConstraint
      cones := groups.cones.map .ofConstraint })

end Problem

end Conic
