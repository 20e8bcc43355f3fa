import Conic.Error
import Conic.SparseMatrix.Dense
import Conic.SparseMatrix.Rows

/-!
# Affine expressions

An affine expression is a column of entries `Σ Mᵥ v + o`, summed over blocks of variables `v`: a
sparse coefficient matrix for each block that occurs, and a constant vector. Every coefficient
matrix has one row for each entry, which the type records. Blocks stay listed once they occur, even
when all their coefficients are zero.

Expressions of different sizes are added when one of them has a single entry, which then counts for
every entry of the other.
-/

namespace Conic

/-- A matrix and a vector: the rows `matrix * x + offset`, or the equations they take part in. -/
structure RowBlock (α : Type) where
  matrix : SparseMatrix α
  offset : DenseVector α

/-- A column of affine functions of the decision variables. -/
structure AffineExpr (α : Type) where
  coeffs : SortedMap VarId (SparseMatrix α)
  constant : DenseVector α
  rows_eq : ∀ m ∈ coeffs.values, m.nrows = constant.length

namespace AffineExpr

variable {α : Type}

/-- The number of entries. -/
def size (e : AffineExpr α) : Nat := e.constant.length

/-- Whether no variable occurs. -/
def isConstant (e : AffineExpr α) : Bool := e.coeffs.isEmpty

/-- The blocks that occur, each with the width of its coefficient matrix. -/
def blocks (e : AffineExpr α) : SortedMap VarId Nat := e.coeffs.mapValues SparseMatrix.ncols

/-! ## Atoms -/

/-- The entries of a block of variables. -/
def ofVariable [Zero α] [One α] [Add α] (v : Variable) : AffineExpr α where
  coeffs := .singleton v.id (.identity v.size)
  constant := .zeros v.size
  rows_eq := by simp [SortedMap.values_singleton, DenseVector.zeros]

/-- Fixed values. -/
def ofConstant (values : DenseVector α) : AffineExpr α where
  coeffs := .empty
  constant := values
  rows_eq := by simp [SortedMap.values, SortedMap.empty]

/-- One fixed value. -/
def ofScalar (value : α) : AffineExpr α := ofConstant [value]

/-- `coeff * v + offset`. -/
def ofSparse (v : Variable) (coeff : SparseMatrix α) (offset : DenseVector α) :
    Except Error (AffineExpr α) :=
  if coeff.ncols ≠ v.size then
    .error (.shapeMismatch (.coefficientColumns v.size coeff.ncols))
  else if h : coeff.nrows = offset.length then
    .ok { coeffs := .singleton v.id coeff
          constant := offset
          rows_eq := by simpa [SortedMap.values_singleton] using h }
  else .error (.shapeMismatch (.offsetLength coeff.nrows offset.length))

/-- `coeff * v + offset` with the coefficients written out. -/
def ofDense [Zero α] [Add α] [BEq α] (v : Variable) (coeff : DenseMatrix α)
    (offset : DenseVector α) : Except Error (AffineExpr α) :=
  ofSparse v (.ofDense coeff) offset

/-! ## Entrywise operations -/

/-- Add a number to every entry. -/
def plus [Add α] (e : AffineExpr α) (value : α) : AffineExpr α where
  coeffs := e.coeffs
  constant := e.constant.shift value
  rows_eq := by simpa [DenseVector.shift] using e.rows_eq

/-- Negate every entry. -/
def neg [One α] [Mul α] [Neg α] (e : AffineExpr α) : AffineExpr α where
  coeffs := e.coeffs.mapValues SparseMatrix.neg
  constant := e.constant.neg
  rows_eq := by
    simpa [SortedMap.values_mapValues, DenseVector.neg, SparseMatrix.neg, SparseMatrix.scale,
      SparseMatrix.mapValues] using e.rows_eq

/-- Multiply every entry by a number. -/
def scale [Mul α] (e : AffineExpr α) (factor : α) : AffineExpr α where
  coeffs := e.coeffs.mapValues (·.scale factor)
  constant := e.constant.scale factor
  rows_eq := by
    simpa [SortedMap.values_mapValues, DenseVector.scale, SparseMatrix.scale,
      SparseMatrix.mapValues] using e.rows_eq

/-! ## Entries picked and summed -/

/-- The entries at these indices; an index past the end gives a zero row. -/
def pick [Zero α] [Add α] (e : AffineExpr α) (indices : List Nat) : AffineExpr α where
  coeffs := e.coeffs.mapValues (·.selectRows indices)
  constant := indices.map e.constant.entry
  rows_eq := by simp [SortedMap.values_mapValues]

/-- The entries at these indices, in this order; an index may occur more than once. -/
def select [Zero α] [Add α] (e : AffineExpr α) (indices : List Nat) : Except Error (AffineExpr α) :=
  match indices.find? (e.size ≤ ·) with
  | some bad => .error (.shapeMismatch (.index e.size bad))
  | none => .ok (e.pick indices)

/-- A single entry. -/
def index [Zero α] [Add α] (e : AffineExpr α) (i : Nat) : Except Error (AffineExpr α) :=
  e.select [i]

/-- The sum of all entries. -/
def sum [Zero α] [Add α] (e : AffineExpr α) : AffineExpr α where
  coeffs := e.coeffs.mapValues SparseMatrix.sumRows
  constant := [DenseVector.sum e.constant]
  rows_eq := by simp [SortedMap.values_mapValues]

/-! ## Sums of expressions -/

/-- The first entry `n` times over. -/
def broadcast [Zero α] [Add α] (e : AffineExpr α) (n : Nat) : AffineExpr α :=
  e.pick (List.replicate n 0)

theorem size_broadcast [Zero α] [Add α] (e : AffineExpr α) (n : Nat) :
    (e.broadcast n).size = n := by
  simp [broadcast, pick, size]

/-- The entrywise sum of two expressions of one size. -/
def join [Add α] (a b : AffineExpr α) (h : a.size = b.size) : AffineExpr α where
  coeffs := a.coeffs.mergeWith SparseMatrix.add b.coeffs
  constant := a.constant.add b.constant
  rows_eq := by
    have hlen : (a.constant.add b.constant).length = a.constant.length := by
      simp only [size] at h
      simp [DenseVector.add, h]
    rw [hlen]
    exact SortedMap.forall_values_mergeWith (fun m _ hm _ => by simpa using hm) a.rows_eq
      fun m hm => (b.rows_eq m hm).trans h.symm

/-- The sum; an expression of size one counts for every entry of the other. -/
def add [Zero α] [Add α] (a b : AffineExpr α) : Except Error (AffineExpr α) :=
  if h : a.size = b.size then .ok (a.join b h)
  else if a.size = 1 then .ok ((a.broadcast b.size).join b (size_broadcast a _))
  else if b.size = 1 then .ok (a.join (b.broadcast a.size) (size_broadcast b _).symm)
  else .error (.shapeMismatch (.sizes a.size b.size))

/-- The difference, the sum with the negated expression. -/
def sub [Zero α] [One α] [Add α] [Mul α] [Neg α] (a b : AffineExpr α) :
    Except Error (AffineExpr α) :=
  a.add b.neg

/-! ## Reading off one block -/

/-- The rows `M x + o` of an expression in the one block `x`. A block that does not occur has zero
coefficients; no other block may occur, and the widths must agree. -/
def rowsOver (e : AffineExpr α) (v : Variable) : Except Error (RowBlock α) :=
  match e.coeffs.keys.find? (· ≠ v.id) with
  | some other => .error (.invalidProblem (.foreignVariable other v.id))
  | none =>
    match e.coeffs.find? v.id with
    | none => .ok ⟨.zeros e.size v.size, e.constant⟩
    | some m =>
      if m.ncols = v.size then .ok ⟨m, e.constant⟩
      else .error (.shapeMismatch (.coefficientColumns v.size m.ncols))

end AffineExpr

end Conic
