import Conic.SparseMatrix.Basic
import Conic.Word

/-!
# Rows of sparse matrices

Stacking matrices on top of each other, moving rows to other places and picking rows. Entries that
end up outside the shape asked for are left out, as always with `ofEntries`. `scatterRows?` and
`selectRows?` also refuse the requests that name a row which is not there.

A matrix without entries can have any number of rows, so that the rows of a stack may be too many
for a word: `stack` numbers them exactly, `vstack` as the program does.
-/

namespace Conic

open scoped Counting

/-- The places at which `x` stands in a list, ascending. -/
def placesOf {α : Type} [BEq α] (x : α) (l : List α) : List Nat :=
  l.zipIdx.filterMap fun e => if e.1 == x then some e.2 else none

namespace SparseMatrix

variable {α : Type}

/-- The entries of a stack of matrices whose first row is row `offset`. -/
def stackedEntries (offset : Nat) : List (SparseMatrix α) → List (Entry α)
  | [] => []
  | m :: ms =>
    m.entries.map (fun e => ⟨offset + e.row, e.col, e.value⟩) ++
      stackedEntries (offset + m.nrows) ms

/-- The matrices on top of each other in `ncols` columns. -/
def stack [Add α] (blocks : List (SparseMatrix α)) (ncols : Nat) : SparseMatrix α :=
  ofEntries (blocks.map nrows).sum ncols (stackedEntries 0 blocks)

/-- The matrices on top of each other, their rows counted by a word. -/
def vstack [Add α] (blocks : List (SparseMatrix α)) (ncols : Nat) : SparseMatrix α :=
  ofEntries (word (blocks.map nrows).sum) ncols <|
    (stackedEntries 0 blocks).map fun e => ⟨word e.row, e.col, e.value⟩

/-- Row `r` of `m` becomes row `dest[r]` of a matrix of `nrows` rows. -/
def scatterRows [Add α] (m : SparseMatrix α) (dest : List Nat) (nrows : Nat) : SparseMatrix α :=
  ofEntries nrows m.ncols <| m.entries.filterMap fun e =>
    dest[e.row]?.map fun row => ⟨row, e.col, e.value⟩

/-- `scatterRows`, provided that every stored entry has a destination. -/
def scatterRows? [Add α] (m : SparseMatrix α) (dest : List Nat) (nrows : Nat) :
    Option (SparseMatrix α) :=
  if m.entries.all (·.row < dest.length) then some (m.scatterRows dest nrows) else none

/-- The matrix whose row `i` is row `rows[i]` of `m`. -/
def selectRows [Add α] (m : SparseMatrix α) (rows : List Nat) : SparseMatrix α :=
  ofEntries rows.length m.ncols <| m.entries.flatMap fun e =>
    (placesOf e.row rows).map fun row => ⟨row, e.col, e.value⟩

/-- `selectRows`, provided that `m` has all these rows. -/
def selectRows? [Add α] (m : SparseMatrix α) (rows : List Nat) : Option (SparseMatrix α) :=
  if rows.all (· < m.nrows) then some (m.selectRows rows) else none

/-- The one-row matrix of the column sums. -/
def sumRows [Add α] (m : SparseMatrix α) : SparseMatrix α :=
  ofEntries 1 m.ncols (m.entries.map fun e => ⟨0, e.col, e.value⟩)

@[simp] theorem stack_nrows [Add α] (blocks : List (SparseMatrix α)) (ncols : Nat) :
    (stack blocks ncols).nrows = (blocks.map nrows).sum := ofEntries_nrows ..

@[simp] theorem stack_ncols [Add α] (blocks : List (SparseMatrix α)) (ncols : Nat) :
    (stack blocks ncols).ncols = ncols := ofEntries_ncols ..

@[simp] theorem vstack_nrows [Add α] (blocks : List (SparseMatrix α)) (ncols : Nat) :
    (vstack blocks ncols).nrows = word (blocks.map nrows).sum := ofEntries_nrows ..

@[simp] theorem vstack_ncols [Add α] (blocks : List (SparseMatrix α)) (ncols : Nat) :
    (vstack blocks ncols).ncols = ncols := ofEntries_ncols ..

@[simp] theorem scatterRows_nrows [Add α] (m : SparseMatrix α) (dest : List Nat) (nrows : Nat) :
    (m.scatterRows dest nrows).nrows = nrows := ofEntries_nrows ..

@[simp] theorem scatterRows_ncols [Add α] (m : SparseMatrix α) (dest : List Nat) (nrows : Nat) :
    (m.scatterRows dest nrows).ncols = m.ncols := ofEntries_ncols ..

@[simp] theorem selectRows_nrows [Add α] (m : SparseMatrix α) (rows : List Nat) :
    (m.selectRows rows).nrows = rows.length := ofEntries_nrows ..

@[simp] theorem selectRows_ncols [Add α] (m : SparseMatrix α) (rows : List Nat) :
    (m.selectRows rows).ncols = m.ncols := ofEntries_ncols ..

@[simp] theorem sumRows_nrows [Add α] (m : SparseMatrix α) : m.sumRows.nrows = 1 :=
  ofEntries_nrows ..

@[simp] theorem sumRows_ncols [Add α] (m : SparseMatrix α) : m.sumRows.ncols = m.ncols :=
  ofEntries_ncols ..

end SparseMatrix

end Conic
