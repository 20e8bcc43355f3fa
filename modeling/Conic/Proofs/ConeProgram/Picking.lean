import Conic.Proofs.ConeProgram.Stacks

/-!
# Rows picked from a block

Picking rows goes through everything that makes a block of rows: an expression and its rows
(`rowsOver_pick`), the change of signs, and stacking (`stack_map_pick`). A block is therefore the
stack of its runs of rows (`stack_runs`).
-/

namespace Conic

variable {α : Type}

/-- The numbers of run `j`, when rows come in runs of `width`. -/
def run (width j : Nat) : List Nat := (List.range width).map (j * width + ·)

@[simp] theorem length_run (width j : Nat) : (run width j).length = width := by
  simp [run]

theorem getElem?_run {width j i : Nat} (h : i < width) :
    (run width j)[i]? = some (j * width + i) := by
  rw [run, List.getElem?_map, List.getElem?_range h]
  rfl

/-- A run lies inside the rows of all runs. -/
theorem lt_of_mem_run {width j runs i : Nat} (hj : j < runs) (h : i ∈ run width j) :
    i < runs * width := by
  obtain ⟨r, hr, rfl⟩ := List.mem_map.1 h
  have hr := List.mem_range.1 hr
  have hruns := Nat.mul_le_mul_right width hj
  rw [Nat.succ_mul] at hruns
  omega

namespace RowBlock

/-- Blocks of one shape are equal when their rows are. -/
theorem ext_rows {a b : RowBlock α} {nrows ncols : Nat} (ha : a.Fits nrows ncols)
    (hb : b.Fits nrows ncols) (h : ∀ row < nrows, a.RowEq row b row) : a = b := by
  have hmatrix : a.matrix = b.matrix := by
    refine SparseMatrix.ext_get?_of_lt (ha.nrows_eq.trans hb.nrows_eq.symm)
      (ha.ncols_eq.trans hb.ncols_eq.symm) fun row hrow col _ => ?_
    exact (h row (ha.nrows_eq ▸ hrow)).1 col
  have hoffset : a.offset = b.offset := by
    refine List.ext_getElem? fun row => ?_
    by_cases hrow : row < nrows
    · exact (h row hrow).2
    · rw [List.getElem?_eq_none (by rw [ha.length_offset]; omega),
        List.getElem?_eq_none (by rw [hb.length_offset]; omega)]
  cases a
  cases b
  cases hmatrix
  cases hoffset
  rfl

/-! ## Picking -/

variable [Zero α] [Add α]

/-- The rows with these numbers. -/
def pick (b : RowBlock α) (rows : List Nat) : RowBlock α :=
  ⟨b.matrix.selectRows rows, rows.map b.offset.entry⟩

theorem pick_fits {b : RowBlock α} {nrows ncols : Nat} (h : b.Fits nrows ncols) (rows : List Nat) :
    (b.pick rows).Fits rows.length ncols :=
  ⟨rfl, h.ncols_eq, List.length_map ..⟩

theorem rowEq_pick {b : RowBlock α} {nrows ncols : Nat} (h : b.Fits nrows ncols) {rows : List Nat}
    {i row : Nat} (hi : rows[i]? = some row) (hrow : row < nrows) :
    (b.pick rows).RowEq i b row := by
  constructor
  · intro col
    rw [pick, SparseMatrix.get?_selectRows, hi]
    rfl
  · have hlt : row < b.offset.length := by rw [h.length_offset]; exact hrow
    rw [pick, List.getElem?_map, hi, Option.map_some, DenseVector.some_entry hlt]

/-- All rows in their order are the block. -/
theorem pick_range {b : RowBlock α} {nrows ncols : Nat} (h : b.Fits nrows ncols) :
    b.pick (List.range nrows) = b := by
  have hpick := pick_fits h (List.range nrows)
  rw [List.length_range] at hpick
  exact ext_rows hpick h fun row hrow => rowEq_pick h (List.getElem?_range hrow) hrow

theorem pick_append {b : RowBlock α} {ncols : Nat} (h : b.matrix.ncols = ncols)
    (rows others : List Nat) :
    b.pick (rows ++ others) = stack [b.pick rows, b.pick others] ncols := by
  have hmatrix : b.matrix.selectRows (rows ++ others) =
      SparseMatrix.stack [b.matrix.selectRows rows, b.matrix.selectRows others] ncols := by
    refine SparseMatrix.ext_get? (by simp) h fun row col => ?_
    rw [SparseMatrix.get?_stack, SparseMatrix.stackedAt, SparseMatrix.stackedAt_singleton,
      SparseMatrix.get?_selectRows, SparseMatrix.get?_selectRows, SparseMatrix.get?_selectRows,
      SparseMatrix.selectRows_nrows]
    by_cases hcol : col < ncols
    · rw [if_pos hcol]
      split
      case isTrue hrow => rw [List.getElem?_append_left hrow]
      case isFalse hrow => rw [List.getElem?_append_right (by omega)]
    · rw [if_neg hcol]
      -- no row stores anything there
      have hnone : (fun row => b.matrix.get? row col) = fun _ => none :=
        funext fun row => SparseMatrix.get?_eq_none (.inr (by omega))
      rw [hnone, Option.bind_fun_none]
  simp only [pick, stack, hmatrix, List.map_append, List.map_cons, List.map_nil, List.flatten_cons,
    List.flatten_nil, List.append_nil]

/-- A stack of picks is one pick. -/
theorem stack_map_pick {b : RowBlock α} {ncols : Nat} (h : b.matrix.ncols = ncols)
    (rows : List (List Nat)) : stack (rows.map b.pick) ncols = b.pick rows.flatten := by
  induction rows with
  | nil =>
    have hempty : SparseMatrix.stack [] ncols = b.matrix.selectRows [] :=
      SparseMatrix.ext_get? rfl h.symm fun row col => by
        rw [SparseMatrix.get?_eq_none (.inl (Nat.zero_le _)),
          SparseMatrix.get?_eq_none (.inl (Nat.zero_le _))]
    exact congrArg (RowBlock.mk · []) hempty
  | cons first rows ih =>
    have hsplit := stack_append [b.pick first] (rows.map b.pick) ncols
    rw [stack_singleton (show (b.pick first).matrix.ncols = ncols from h), ih] at hsplit
    rw [List.map_cons, List.flatten_cons, pick_append h, ← hsplit]
    rfl

/-- Where a block has the rows of a run, it is the run picked out. -/
theorem eq_pick_run {b part : RowBlock α} {runs width ncols j : Nat}
    (hb : b.Fits (runs * width) ncols) (hpart : part.Fits width ncols) (hj : j < runs)
    (h : ∀ row < width, part.RowEq row b (j * width + row)) : part = b.pick (run width j) := by
  have hpick := pick_fits hb (run width j)
  rw [length_run] at hpick
  refine ext_rows hpart hpick fun row hrow => ?_
  have hrun := getElem?_run (j := j) hrow
  exact (h row hrow).trans (rowEq_pick hb hrun (lt_of_mem_run hj (List.mem_of_getElem? hrun))).symm

/-- A block is the stack of its runs of `width` rows. -/
theorem stack_runs {b : RowBlock α} {runs width ncols : Nat} (h : b.Fits (runs * width) ncols) :
    stack ((List.range runs).map fun j => b.pick (run width j)) ncols = b := by
  have hflat : ((List.range runs).map (run width)).flatten = List.range (runs * width) := by
    rw [← List.flatMap_def, ← List.map_id' (List.range (runs * width)), map_range_mul]
    rfl
  have hstack := stack_map_pick h.ncols_eq ((List.range runs).map (run width))
  rw [hflat, pick_range h, List.map_map] at hstack
  exact hstack

/-! ## Signs -/

theorem slack_pick [One α] [Mul α] [Neg α] (b : RowBlock α) (rows : List Nat) :
    slack (b.pick rows) = (slack b).pick rows := by
  have hmatrix : (b.matrix.selectRows rows).neg = b.matrix.neg.selectRows rows :=
    SparseMatrix.ext_get? rfl rfl fun row col => by
      simp only [SparseMatrix.neg, SparseMatrix.scale, SparseMatrix.get?_mapValues,
        SparseMatrix.get?_selectRows, Option.map_bind, Function.comp_def]
  exact congrArg (RowBlock.mk · (rows.map b.offset.entry)) hmatrix

theorem comparison_pick [Neg α] {b : RowBlock α} {rows : List Nat}
    (h : ∀ row ∈ rows, row < b.offset.length) :
    comparison (b.pick rows) = (comparison b).pick rows := by
  have hoffset : DenseVector.neg (rows.map b.offset.entry) = rows.map b.offset.neg.entry := by
    rw [DenseVector.neg, List.map_map]
    exact List.map_congr_left fun row hrow => (DenseVector.entry_map (- ·) (h row hrow)).symm
  exact congrArg (RowBlock.mk (b.matrix.selectRows rows)) hoffset

end RowBlock

/-! ## Picked entries of expressions -/

namespace AffineExpr

variable [Zero α] [Add α]

omit [Zero α] [Add α] in
theorem rowsOver_of_singleton {e : AffineExpr α} {v : Variable} {m : SparseMatrix α}
    (h : e.coeffs = .singleton v.id m) (hm : m.ncols = v.size) :
    e.rowsOver v = .ok ⟨m, e.constant⟩ := by
  have hkeys : (SortedMap.singleton v.id m).keys.find? (· ≠ v.id) = none :=
    List.find?_eq_none.2 fun k hk => by simp [List.mem_singleton.1 hk]
  rw [rowsOver, h, hkeys, SortedMap.find?_singleton_self]
  exact if_pos hm

omit [Zero α] [Add α] in
theorem rowsOver_of_empty {e : AffineExpr α} {v : Variable} (h : e.coeffs = .empty) :
    e.rowsOver v = .ok ⟨.zeros e.size v.size, e.constant⟩ := by
  rw [rowsOver, h]
  rfl

/-- The rows of picked entries are the picked rows. -/
theorem rowsOver_pick {e : AffineExpr α} {v : Variable} {b : RowBlock α} (h : e.rowsOver v = .ok b)
    (indices : List Nat) : (e.pick indices).rowsOver v = .ok (b.pick indices) := by
  obtain ⟨hoffset, ⟨m, hcoeffs, hncols, hmatrix⟩ | ⟨hcoeffs, hmatrix⟩⟩ := rowsOver_eq_ok h
  · have hpicked : (e.pick indices).coeffs = .singleton v.id (m.selectRows indices) := by
      change e.coeffs.mapValues (·.selectRows indices) = _
      rw [hcoeffs]
      rfl
    rw [rowsOver_of_singleton hpicked hncols, RowBlock.pick, hmatrix, hoffset]
    rfl
  · have hpicked : (e.pick indices).coeffs = .empty := by
      change e.coeffs.mapValues (·.selectRows indices) = _
      rw [hcoeffs]
      rfl
    have hzeros : (SparseMatrix.zeros e.size v.size : SparseMatrix α).selectRows indices =
        .zeros indices.length v.size :=
      SparseMatrix.ext_get? rfl rfl fun row col => by
        rw [SparseMatrix.get?_selectRows]
        cases indices[row]? <;> rfl
    rw [rowsOver_of_empty hpicked, size_pick, RowBlock.pick, hmatrix, hzeros, hoffset]
    rfl

end AffineExpr

end Conic
