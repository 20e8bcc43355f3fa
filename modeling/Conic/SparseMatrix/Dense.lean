import Conic.DenseVector
import Conic.SparseMatrix.Basic

/-!
# Dense matrices

The conversions between sparse matrices and matrices written out row by row. Going to the sparse
form drops every entry that compares equal to zero, negative zero included; coming back adds each
stored value to zero.
-/

namespace Conic

/-- A matrix as a list of rows of one length. -/
structure DenseMatrix (α : Type) where
  ncols : Nat
  rows : List (DenseVector α)
  uniform : ∀ r ∈ rows, r.length = ncols
  deriving DecidableEq

namespace DenseMatrix

variable {α : Type}

/-- The number of rows. -/
def nrows (d : DenseMatrix α) : Nat := d.rows.length

/-- The matrix with these rows, as wide as the first one; none if another row differs in length. -/
def ofRows? (rows : List (DenseVector α)) : Option (DenseMatrix α) :=
  let ncols := (rows.head?.map List.length).getD 0
  if h : ∀ r ∈ rows, r.length = ncols then some ⟨ncols, rows, h⟩ else none

/-- The entry at a place; zero outside the matrix. -/
def entry [Zero α] (d : DenseMatrix α) (row col : Nat) : α := (d.rows.getD row []).entry col

end DenseMatrix

namespace SparseMatrix

variable {α : Type}

/-- The nonzero entries of a dense matrix, stored column by column. -/
def ofDense [Zero α] [Add α] [BEq α] (d : DenseMatrix α) : SparseMatrix α :=
  ofEntries d.nrows d.ncols <|
    (List.range d.ncols).flatMap fun col =>
      (List.range d.nrows).filterMap fun row =>
        let v := d.entry row col
        if v != 0 then some ⟨row, col, v⟩ else none

/-- All entries, written out row by row. -/
def toDense [Zero α] [Add α] (m : SparseMatrix α) : DenseMatrix α where
  ncols := m.ncols
  rows := (List.range m.nrows).map fun row =>
    (List.range m.ncols).map fun col =>
      match m.get? row col with
      | some v => 0 + v
      | none => 0
  uniform := by simp

end SparseMatrix

end Conic
