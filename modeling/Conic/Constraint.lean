import Conic.AffineExpr
import Conic.Build
import Conic.Word

/-!
# Constraints

A constraint is a condition, an identified one: affine expressions that have to lie in a cone. The
conditions carry what their arguments have to satisfy to make sense, such as that the bodies of the
second-order cones share out evenly; the constructors check it and fail otherwise, before they draw
an identifier.

`size`, `numCones` and `coneSizes` count entries and cones: one cone for each entry of an
elementwise condition, one for each bound, one for each triple, and one for a semidefinite matrix.
-/

namespace Conic

open scoped Counting

/-- Affine expressions and the cone they have to lie in. -/
inductive Condition (α : Type) where
  /-- Every entry is zero. -/
  | zero (e : AffineExpr α)
  /-- No entry is above zero. -/
  | nonpos (e : AffineExpr α)
  /-- No entry is below zero. -/
  | nonneg (e : AffineExpr α)
  /-- Each entry of `t` bounds the length of its body; the bodies lie in `x` one after the other. -/
  | secondOrder (t x : AffineExpr α) (pos : 0 < t.size) (dvd : t.size ∣ x.size)
  /-- Each `(x, y, z)` has `y * exp (x / y) ≤ z` and `0 < y`, or is a limit of such triples. -/
  | exponential (x y z : AffineExpr α) (hy : y.size = x.size) (hz : z.size = x.size)
  /-- The entries, column by column, form a positive semidefinite matrix of `dim` rows. Their number
  is compared as a word. -/
  | semidefinite (e : AffineExpr α) (dim : Nat) (square : e.size = word (dim * dim))
  /-- Each `(x, y, z)` has `|z| ≤ x ^ alpha * y ^ (1 - alpha)`. -/
  | power (x y z : AffineExpr α) (alpha : Float) (hy : y.size = x.size) (hz : z.size = x.size)
      (inside : 0 < alpha ∧ alpha < 1)

/-- A condition under an identifier. -/
structure Constraint (α : Type) where
  id : ConstrId
  condition : Condition α

/-! ## Counting -/

namespace Condition

variable {α : Type}

/-- The kind of cone. -/
def kind : Condition α → ConeKind
  | zero .. => .zero
  | nonpos .. => .nonpos
  | nonneg .. => .nonneg
  | secondOrder .. => .secondOrder
  | exponential .. => .exponential
  | semidefinite .. => .semidefinite
  | power .. => .power

/-- The argument expressions in order. -/
def args : Condition α → List (AffineExpr α)
  | zero e => [e]
  | nonpos e => [e]
  | nonneg e => [e]
  | secondOrder t x _ _ => [t, x]
  | exponential x y z _ _ => [x, y, z]
  | semidefinite e _ _ => [e]
  | power x y z _ _ _ _ => [x, y, z]

/-- The number of entries of all arguments. -/
def size (c : Condition α) : Nat := (c.args.map AffineExpr.size).sum

/-- The number of cones. -/
def numCones : Condition α → Nat
  | zero e => e.size
  | nonpos e => e.size
  | nonneg e => e.size
  | secondOrder t _ _ _ => t.size
  | exponential x _ _ _ _ => x.size
  | semidefinite _ _ _ => 1
  | power x _ _ _ _ _ _ => x.size

/-- The number of entries of each cone. -/
def coneSizes (c : Condition α) : List Nat :=
  match c with
  | secondOrder t x _ _ => List.replicate t.size (x.size / t.size + 1)
  | exponential x _ _ _ _ => List.replicate x.size 3
  | semidefinite _ dim _ => [word (dim * dim)]
  | power x _ _ _ _ _ _ => List.replicate x.size 3
  | _ => List.replicate c.numCones 1

end Condition

/-- The table of the first width that a list gives to each variable. -/
def firstWidths (l : List (VarId × Nat)) : SortedMap VarId Nat :=
  .ofListWith (fun first _ => first) l

namespace Constraint

variable {α : Type}

/-- The kind of cone. -/
def kind (c : Constraint α) : ConeKind := c.condition.kind

/-- The number of entries of all arguments. -/
def size (c : Constraint α) : Nat := c.condition.size

/-- The variables of the arguments, each with the width it has in the first argument where it
occurs. -/
def blocks (c : Constraint α) : SortedMap VarId Nat :=
  firstWidths (c.condition.args.flatMap (·.blocks.entries))

/-! ## Constructors -/

/-- Give a condition an identifier. -/
def ofCondition (c : Condition α) : Build (Constraint α) := do
  return ⟨← Build.constrId, c⟩

/-- `e = 0`. -/
def zero (e : AffineExpr α) : Build (Constraint α) := ofCondition (.zero e)

/-- `e ≤ 0`, entry by entry. -/
def nonpos (e : AffineExpr α) : Build (Constraint α) := ofCondition (.nonpos e)

/-- `e ≥ 0`, entry by entry. -/
def nonneg (e : AffineExpr α) : Build (Constraint α) := ofCondition (.nonneg e)

section Comparisons

variable [Zero α] [One α] [Add α] [Mul α] [Neg α]

/-- `l = r`, as `l - r = 0`. -/
def eq (l r : AffineExpr α) : Build (Constraint α) := do
  zero (← Build.lift (l.sub r))

/-- `l ≤ r`, as `l - r ≤ 0`. -/
def leq (l r : AffineExpr α) : Build (Constraint α) := do
  nonpos (← Build.lift (l.sub r))

/-- `l ≥ r`, as `r - l ≤ 0`. -/
def geq (l r : AffineExpr α) : Build (Constraint α) := do
  nonpos (← Build.lift (r.sub l))

end Comparisons

/-- One second-order cone for each entry of `t`, the bodies one after the other in `x`. -/
def socColumns (t x : AffineExpr α) : Build (Constraint α) :=
  if h : 0 < t.size ∧ t.size ∣ x.size then ofCondition (.secondOrder t x h.1 h.2)
  else throw (.shapeMismatch (.bodySize t.size x.size))

/-- One second-order cone: the single entry of `t` bounds the length of `x`. -/
def soc (t x : AffineExpr α) : Build (Constraint α) :=
  if t.size = 1 then socColumns t x
  else throw (.shapeMismatch (.boundNotScalar t.size))

/-- An exponential cone for each entry of the three arguments. -/
def expCone (x y z : AffineExpr α) : Build (Constraint α) :=
  if h : y.size = x.size ∧ z.size = x.size then ofCondition (.exponential x y z h.1 h.2)
  else throw (.shapeMismatch (.argumentSizes x.size y.size z.size))

/-- A positive semidefinite matrix of `dim` rows, given column by column. -/
def psd (e : AffineExpr α) (dim : Nat) : Build (Constraint α) :=
  if h : e.size = word (dim * dim) then ofCondition (.semidefinite e dim h)
  else throw (.shapeMismatch (.entries (word (dim * dim)) e.size))

/-- A power cone of exponent `alpha` for each entry of the three arguments. -/
def powCone (x y z : AffineExpr α) (alpha : Float) : Build (Constraint α) :=
  if h : y.size = x.size ∧ z.size = x.size then
    if inside : 0 < alpha ∧ alpha < 1 then ofCondition (.power x y z alpha h.1 h.2 inside)
    else throw (.invalidProblem (.powerExponent alpha))
  else throw (.shapeMismatch (.argumentSizes x.size y.size z.size))

end Constraint

/-! ## Comparisons from the left side -/

namespace AffineExpr

variable {α : Type} [Zero α] [One α] [Add α] [Mul α] [Neg α]

/-- `l = r`. -/
def equals (l r : AffineExpr α) : Build (Constraint α) := Constraint.eq l r

/-- `l ≤ r`. -/
def leq (l r : AffineExpr α) : Build (Constraint α) := Constraint.leq l r

/-- `l ≥ r`. -/
def geq (l r : AffineExpr α) : Build (Constraint α) := Constraint.geq l r

end AffineExpr

end Conic
