import Conic.Proofs.ConeProgram.Assembly
import Conic.Proofs.SparseMatrix.Rows

/-!
# Stacks of stacks

A stack may be put together from stacks. Rows do not change places when the blocks of a part are
stacked first (`stack_append`), and so the rows of two lists of constraints are those of the first
list above those of the second (`stackedRows_append`).
-/

namespace Conic

variable {α : Type}

namespace RowBlock

variable [Add α]

theorem stack_append (bs cs : List (RowBlock α)) (ncols : Nat) :
    stack (bs ++ cs) ncols = stack [stack bs ncols, stack cs ncols] ncols := by
  simp only [stack, List.map_append, List.map_cons, List.map_nil, List.flatten_append,
    List.flatten_cons, List.flatten_nil, List.append_nil]
  rw [SparseMatrix.stack_append]

theorem stack_singleton {b : RowBlock α} {ncols : Nat} (h : b.matrix.ncols = ncols) :
    stack [b] ncols = b := by
  simp only [stack, List.map_cons, List.map_nil, List.flatten_cons, List.flatten_nil,
    List.append_nil]
  rw [SparseMatrix.stack_singleton h]

end RowBlock

namespace Constraint

variable [Zero α] [One α] [Add α] [Mul α] [Neg α]

/-- The rows of two lists of constraints, one below the other. -/
theorem stackedRows_append (cs ds : List (Constraint α)) (v : Variable) (o : ExpOrder) :
    stackedRows (cs ++ ds) v o = do
      let above ← stackedRows cs v o
      let below ← stackedRows ds v o
      return .stack [above, below] v.size := by
  simp only [stackedRows, List.mapM_append, bind_assoc, pure_bind, RowBlock.stack_append]

theorem stackedRows_append_eq_ok {cs ds : List (Constraint α)} {v : Variable} {o : ExpOrder}
    {above below : RowBlock α} (h : stackedRows cs v o = .ok above)
    (h' : stackedRows ds v o = .ok below) :
    stackedRows (cs ++ ds) v o = .ok (.stack [above, below] v.size) := by
  rw [stackedRows_append, h, h']
  rfl

theorem stackedRows_singleton {c : Constraint α} {v : Variable} {o : ExpOrder}
    (ho : o.IsPermutation) {block : RowBlock α} (h : c.rows v o = .ok block) :
    stackedRows [c] v o = .ok block :=
  stackedRows_eq_ok.2 ⟨[block], .cons h .nil,
    (RowBlock.stack_singleton (rows_fits ho h).ncols_eq).symm⟩

end Constraint

end Conic
