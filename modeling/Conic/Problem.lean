import Conic.Constraint

/-!
# Problems

An affine objective, to be minimized or maximized, under constraints in the order they were added.
-/

namespace Conic

/-- Which way the objective should go. -/
inductive Sense where
  | minimize
  | maximize
  deriving DecidableEq, Repr

/-- An optimization problem. -/
structure Problem (α : Type) where
  sense : Sense
  objective : AffineExpr α
  constraints : List (Constraint α)

namespace Problem

variable {α : Type}

/-- Minimize an expression, without constraints so far. -/
def minimize (e : AffineExpr α) : Problem α := ⟨.minimize, e, []⟩

/-- Maximize an expression, without constraints so far. -/
def maximize (e : AffineExpr α) : Problem α := ⟨.maximize, e, []⟩

/-- Add constraints after those already there. -/
def subjectTo (p : Problem α) (cs : List (Constraint α)) : Problem α :=
  { p with constraints := p.constraints ++ cs }

/-- Add one constraint after those already there. -/
def withConstraint (p : Problem α) (c : Constraint α) : Problem α :=
  { p with constraints := p.constraints ++ [c] }

/-- The variables of the problem, each with the width it has where it first occurs: in the
objective, or else in the constraints in order. -/
def blocks (p : Problem α) : SortedMap VarId Nat :=
  firstWidths (p.objective.blocks.entries ++ p.constraints.flatMap (·.blocks.entries))

/-- The kinds of constraint that occur, in the order of their first occurrence. -/
def constraintKinds (p : Problem α) : List ConeKind :=
  p.constraints.foldl (fun kinds c => if kinds.contains c.kind then kinds else kinds ++ [c.kind]) []

end Problem

end Conic
