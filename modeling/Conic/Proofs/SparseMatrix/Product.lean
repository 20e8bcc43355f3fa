import Conic.Proofs.DenseVector
import Conic.Proofs.SparseMatrix.Stored
import Conic.SparseMatrix.Dense

/-!
# Products of sparse matrices and vectors

The linear map that a sparse matrix stands for, over exact scalars: a position where nothing is
stored counts as zero. The product with a stack of matrices is made of the products with its blocks
(`mulVec_stack`), and picking rows of a matrix picks entries of the product (`mulVec_selectRows`).
-/

namespace Conic.SparseMatrix

variable {α : Type} [CommRing α]

/-- The coefficient at a place. -/
def coeff (m : SparseMatrix α) (row col : Nat) : α := (m.get? row col).getD 0

/-- One entry of the product with a vector. -/
def rowValue (m : SparseMatrix α) (x : DenseVector α) (row : Nat) : α :=
  ∑ col ∈ Finset.range m.ncols, m.coeff row col * x.entry col

/-- The product `m * x`. -/
def mulVec (m : SparseMatrix α) (x : DenseVector α) : DenseVector α :=
  (List.range m.nrows).map (m.rowValue x)

/-- The product of the transposed matrix with a vector. -/
def transposeMulVec (m : SparseMatrix α) (y : DenseVector α) : DenseVector α :=
  (List.range m.ncols).map fun col => ∑ row ∈ Finset.range m.nrows, m.coeff row col * y.entry row

@[simp] theorem length_mulVec (m : SparseMatrix α) (x : DenseVector α) :
    (m.mulVec x).length = m.nrows := by
  simp [mulVec]

/-- Equal rows have equal products. -/
theorem rowValue_congr {m n : SparseMatrix α} {i j : Nat} (hc : m.ncols = n.ncols)
    (h : ∀ col, m.get? i col = n.get? j col) (x : DenseVector α) :
    m.rowValue x i = n.rowValue x j := by
  rw [rowValue, rowValue, hc]
  refine Finset.sum_congr rfl fun col _ => ?_
  rw [coeff, coeff, h]

theorem rowValue_scale (m : SparseMatrix α) (c : α) (x : DenseVector α) (row : Nat) :
    (m.scale c).rowValue x row = m.rowValue x row * c := by
  rw [rowValue, rowValue, Finset.sum_mul]
  refine Finset.sum_congr rfl fun col _ => ?_
  have hcoeff : (m.scale c).coeff row col = m.coeff row col * c := by
    rw [coeff, coeff, scale, get?_mapValues]
    cases m.get? row col <;> simp
  rw [hcoeff]
  ring

theorem rowValue_neg (m : SparseMatrix α) (x : DenseVector α) (row : Nat) :
    m.neg.rowValue x row = - m.rowValue x row := by
  rw [neg, rowValue_scale, mul_neg_one]

@[simp] theorem rowValue_zeros (nrows ncols : Nat) (x : DenseVector α) (row : Nat) :
    (zeros nrows ncols).rowValue x row = 0 := by
  simp [rowValue, coeff]

/-- What a list of entries adds to one entry of a product, column by column and entry by entry. -/
theorem sum_valuesAt_mul {ncols : Nat} {l : List (Entry α)} (hcols : ∀ e ∈ l, e.col < ncols)
    (x : DenseVector α) (row : Nat) :
    ∑ col ∈ Finset.range ncols, (valuesAt row col l).sum * x.entry col =
      (l.map fun e => if e.row = row then e.value * x.entry e.col else 0).sum := by
  induction l with
  | nil => simp
  | cons e l ih =>
    have hcol := hcols e List.mem_cons_self
    rw [List.map_cons, List.sum_cons, ← ih fun d hd => hcols d (List.mem_cons_of_mem _ hd)]
    by_cases hrow : e.row = row
    · -- the head counts in its own column only
      have hhead : e.value * x.entry e.col =
          ∑ col ∈ Finset.range ncols, if e.col = col then e.value * x.entry col else 0 := by
        rw [Finset.sum_ite_eq, if_pos (Finset.mem_range.2 hcol)]
      rw [if_pos hrow, hhead, ← Finset.sum_add_distrib]
      refine Finset.sum_congr rfl fun col _ => ?_
      rw [valuesAt_cons]
      by_cases hc : e.col = col
      · rw [if_pos ⟨hrow, hc⟩, if_pos hc, List.sum_cons, add_mul]
      · rw [if_neg fun h => hc h.2, if_neg hc, zero_add]
    · rw [if_neg hrow, zero_add]
      refine Finset.sum_congr rfl fun col _ => ?_
      rw [valuesAt_cons, if_neg fun h => hrow h.1]

/-- One entry of a product, added up over the stored entries of the row. -/
theorem rowValue_eq_sum_entries (m : SparseMatrix α) (x : DenseVector α) (row : Nat) :
    m.rowValue x row =
      (m.entries.map fun e => if e.row = row then e.value * x.entry e.col else 0).sum := by
  rw [← sum_valuesAt_mul fun e he => (lt_of_mem_entries he).2]
  refine Finset.sum_congr rfl fun col _ => ?_
  rw [valuesAt_entries, coeff]
  cases m.get? row col <;> simp

/-- A product with a stack is the products with the blocks one after the other. -/
theorem mulVec_stack {blocks : List (SparseMatrix α)} {ncols : Nat}
    (h : ∀ m ∈ blocks, m.ncols = ncols) (x : DenseVector α) :
    (stack blocks ncols).mulVec x = (blocks.map (·.mulVec x)).flatten := by
  have hrow : ∀ row, (stack blocks ncols).rowValue x row =
      ∑ col ∈ Finset.range ncols, (stackedAt blocks row col).getD 0 * x.entry col := by
    intro row
    refine Finset.sum_congr rfl fun col hcol => ?_
    rw [coeff, get?_stack, if_pos (Finset.mem_range.1 hcol)]
  rw [mulVec, stack_nrows, funext hrow]
  clear hrow
  induction blocks with
  | nil => rfl
  | cons m ms ih =>
    rw [List.map_cons, List.sum_cons, List.range_add, List.map_append, List.map_map, List.map_cons,
      List.flatten_cons, ← ih fun n hn => h n (by simp [hn])]
    congr 1
    · refine List.map_congr_left fun row hrow => ?_
      rw [rowValue, h m (by simp)]
      refine Finset.sum_congr rfl fun col _ => ?_
      rw [stackedAt, if_pos (List.mem_range.1 hrow)]
      rfl
    · refine List.map_congr_left fun row _ => ?_
      simp only [Function.comp]
      refine Finset.sum_congr rfl fun col _ => ?_
      rw [stackedAt, if_neg (by omega), Nat.add_sub_cancel_left]

theorem rowValue_selectRows (m : SparseMatrix α) {rows : List Nat} {i : Nat} (h : i < rows.length)
    (x : DenseVector α) : (m.selectRows rows).rowValue x i = m.rowValue x rows[i] := by
  refine rowValue_congr (selectRows_ncols m rows) (fun col => ?_) x
  rw [get?_selectRows, List.getElem?_eq_getElem h]
  rfl

/-- Picking rows of a matrix picks entries of its products. -/
theorem mulVec_selectRows {m : SparseMatrix α} {rows : List Nat} (h : ∀ r ∈ rows, r < m.nrows)
    (x : DenseVector α) : (m.selectRows rows).mulVec x = rows.map (m.mulVec x).entry := by
  refine List.ext_getElem (by simp) fun i hi _ => ?_
  have hrows : i < rows.length := by simpa using hi
  simp only [mulVec, List.getElem_map, List.getElem_range]
  rw [DenseVector.entry_map_range _ (h _ (List.getElem_mem hrows)), rowValue_selectRows m hrows]

/-! ## Products with built matrices -/

/-- A matrix multiplies like the list of entries that it was made of. -/
theorem rowValue_ofEntries {nrows ncols : Nat} {l : List (Entry α)} (hcols : ∀ e ∈ l, e.col < ncols)
    {row : Nat} (hrow : row < nrows) (x : DenseVector α) :
    (ofEntries nrows ncols l).rowValue x row =
      (l.map fun e => if e.row = row then e.value * x.entry e.col else 0).sum := by
  have hjoined : ∀ vs : List α, (SortedMap.joined (· + ·) vs).getD 0 = vs.sum := by
    intro vs
    cases vs with
    | nil => rfl
    | cons v vs =>
      have hfold : vs.foldl (· + ·) (v + 0) = v + vs.foldl (· + ·) 0 := List.foldl_assoc
      rw [add_zero] at hfold
      rw [List.sum_cons, List.sum_eq_foldl, ← hfold]
      rfl
  rw [← sum_valuesAt_mul hcols]
  refine Finset.sum_congr rfl fun col hcol => ?_
  rw [coeff, get?_ofEntries_eq, if_pos ⟨hrow, Finset.mem_range.1 hcol⟩, hjoined]

theorem rowValue_identity {n i : Nat} (h : i < n) (x : DenseVector α) :
    (identity n).rowValue x i = x.entry i := by
  have hcols : ∀ e ∈ (List.range n).map fun i => (⟨i, i, 1⟩ : Entry α), e.col < n := by
    simp
  rw [identity, rowValue_ofEntries hcols h, List.map_map]
  show ∑ j ∈ Finset.range n, (if j = i then 1 * x.entry j else 0) = x.entry i
  rw [Finset.sum_ite_eq', if_pos (Finset.mem_range.2 h), one_mul]

theorem rowValue_add {m n : SparseMatrix α} (hc : m.ncols = n.ncols) {row : Nat} (h : row < m.nrows)
    (x : DenseVector α) : (m.add n).rowValue x row = m.rowValue x row + n.rowValue x row := by
  have hcols : ∀ e ∈ m.entries ++ n.entries, e.col < m.ncols := by
    intro e he
    rcases List.mem_append.1 he with he | he
    · exact (lt_of_mem_entries he).2
    · rw [hc]
      exact (lt_of_mem_entries he).2
  rw [add, rowValue_ofEntries hcols h, List.map_append, List.sum_append, ← rowValue_eq_sum_entries,
    ← rowValue_eq_sum_entries]

/-- The row of column sums has as its product the sum of the entries of the product. -/
theorem rowValue_sumRows (m : SparseMatrix α) (x : DenseVector α) :
    m.sumRows.rowValue x 0 = ∑ row ∈ Finset.range m.nrows, m.rowValue x row := by
  have hcols : ∀ e ∈ m.entries.map fun e => (⟨0, e.col, e.value⟩ : Entry α), e.col < m.ncols := by
    intro e he
    obtain ⟨d, hd, rfl⟩ := List.mem_map.1 he
    exact (lt_of_mem_entries hd).2
  -- each entry counts in its own row only
  have hlist : ∀ l : List (Entry α), (∀ e ∈ l, e.row < m.nrows) →
      (l.map fun e => e.value * x.entry e.col).sum = ∑ row ∈ Finset.range m.nrows,
        (l.map fun e => if e.row = row then e.value * x.entry e.col else 0).sum := by
    intro l
    induction l with
    | nil => simp
    | cons e l ih =>
      intro hrows
      simp only [List.map_cons, List.sum_cons]
      rw [ih fun d hd => hrows d (List.mem_cons_of_mem _ hd), Finset.sum_add_distrib,
        Finset.sum_ite_eq, if_pos (Finset.mem_range.2 (hrows e List.mem_cons_self))]
  rw [sumRows, rowValue_ofEntries hcols Nat.one_pos, List.map_map]
  simp only [rowValue_eq_sum_entries]
  exact hlist m.entries fun e he => (lt_of_mem_entries he).1

/-- Entries left out as zero do not change a product. -/
theorem rowValue_ofDense [BEq α] [LawfulBEq α] (d : DenseMatrix α) {row : Nat} (h : row < d.nrows)
    (x : DenseVector α) :
    (ofDense d).rowValue x row = ∑ col ∈ Finset.range d.ncols, d.entry row col * x.entry col := by
  have hcol : ∀ (col : Nat) (l : List Nat),
      ((l.filterMap fun r => if d.entry r col != 0 then some ⟨r, col, d.entry r col⟩ else none).map
        fun e : Entry α => if e.row = row then e.value * x.entry e.col else 0).sum =
          (l.map fun r => if r = row then d.entry r col * x.entry col else 0).sum := by
    intro col l
    induction l with
    | nil => rfl
    | cons r l ih =>
      rw [List.filterMap_cons, List.map_cons, List.sum_cons, ← ih]
      by_cases hzero : d.entry r col = 0
      · simp [hzero]
      · simp [hzero]
  have hcols : ∀ e ∈ (List.range d.ncols).flatMap fun col => (List.range d.nrows).filterMap fun r =>
      if d.entry r col != 0 then some (⟨r, col, d.entry r col⟩ : Entry α) else none,
        e.col < d.ncols := by
    intro e he
    obtain ⟨col, hcol, he⟩ := List.mem_flatMap.1 he
    obtain ⟨r, _, he⟩ := List.mem_filterMap.1 he
    split at he
    · cases he
      exact List.mem_range.1 hcol
    · cases he
  rw [ofDense, rowValue_ofEntries hcols h, List.map_flatMap, List.flatMap_def, List.sum_flatten,
    List.map_map]
  show ∑ col ∈ Finset.range d.ncols, (_ : α) = _
  refine Finset.sum_congr rfl fun col _ => ?_
  rw [Function.comp, hcol]
  show ∑ r ∈ Finset.range d.nrows, (if r = row then d.entry r col * x.entry col else 0) = _
  rw [Finset.sum_ite_eq', if_pos (Finset.mem_range.2 h)]

/-! ## Columns -/

theorem rowValue_unit (m : SparseMatrix α) {col : Nat} (h : col < m.ncols) (row : Nat) :
    m.rowValue (DenseVector.unit m.ncols col) row = m.coeff row col := by
  rw [rowValue, Finset.sum_eq_single_of_mem col (Finset.mem_range.2 h)]
  · rw [DenseVector.unit, DenseVector.entry_map_range _ h, if_pos rfl, mul_one]
  · intro i hi hne
    rw [DenseVector.unit, DenseVector.entry_map_range _ (Finset.mem_range.1 hi), if_neg hne,
      mul_zero]

/-- The transposed matrix multiplies by its columns, which are products with unit vectors. -/
theorem transposeMulVec_eq (m : SparseMatrix α) (y : DenseVector α) :
    m.transposeMulVec y =
      (List.range m.ncols).map fun col => (m.mulVec (DenseVector.unit m.ncols col)).dot y := by
  refine List.map_congr_left fun col hcol => ?_
  rw [DenseVector.dot_eq_sum (Nat.le_of_eq (length_mulVec ..))]
  refine Finset.sum_congr rfl fun row hrow => ?_
  rw [mulVec, DenseVector.entry_map_range _ (Finset.mem_range.1 hrow),
    rowValue_unit m (List.mem_range.1 hcol)]

end Conic.SparseMatrix
