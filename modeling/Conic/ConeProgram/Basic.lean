import Conic.Constraint

/-!
# Cone programs

The standard form of a problem: minimize `c · x + offset` over the `x` with `A x = b` and a slack
`s = h - G x` in a product of cones. The rows of `G` come in three runs: nonnegative rows,
second-order cones and exponential cones. A segment records which constraint a run of rows belongs
to; the segments of a program, in the order of its rows, are what is needed to read a result back.
-/

namespace Conic

open scoped Counting

/-- How the rows of the cone matrix are shared out. -/
structure ConeDims where
  /-- The number of nonnegative rows. -/
  linear : Nat
  /-- The sizes of the second-order cones. -/
  secondOrder : List Nat
  /-- The number of exponential cones, of three rows each. -/
  exponential : Nat
  deriving DecidableEq, Repr

/-- The number of rows of all cones. -/
def ConeDims.rows (d : ConeDims) : Nat := d.linear + d.secondOrder.sum + 3 * d.exponential

/-- The number of rows of all cones, counted by a word. -/
def ConeDims.total (d : ConeDims) : Nat := word d.rows

/-- Minimize `c · x + offset` with `a * x = b` and `h - g * x` in the cones. -/
structure ConeProgram (α : Type) where
  c : DenseVector α
  /-- The constant of the objective, which a solver does not see. -/
  offset : α
  a : SparseMatrix α
  b : DenseVector α
  g : SparseMatrix α
  h : DenseVector α
  dims : ConeDims

/-- The number of decision variables. -/
def ConeProgram.numVars {α : Type} (p : ConeProgram α) : Nat := p.c.length

/-- A run of rows and the constraint it belongs to. -/
structure Segment where
  id : ConstrId
  kind : ConeKind
  size : Nat
  deriving DecidableEq, Repr

/-- The run of rows of a constraint. -/
def Segment.ofConstraint {α : Type} (c : Constraint α) : Segment := ⟨c.id, c.kind, c.size⟩

/-- What it takes to map a result of a program back to its problem. -/
structure Recovery (α : Type) where
  varId : VarId
  varSize : Nat
  /-- The constant of the objective. -/
  offset : α
  /-- The constraints of the equality rows, in the order of the rows. -/
  equalities : List Segment
  /-- The constraints of the cone rows, in the order of the rows. -/
  cones : List Segment

end Conic
