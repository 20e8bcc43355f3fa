import Conic.Proofs.DenseVector
import Conic.Proofs.SparseMatrix.Canonical
import Conic.SparseMatrix.Dense

/-!
# Dense matrices and back

A matrix that is written out does not show which of its zeros were stored. A dense matrix is
therefore what it was when it comes back from sparse form (`toDense_ofDense`), and a sparse matrix
that was written out comes back without its stored zeros (`ofDense_toDense`).
-/

namespace Conic

/-! ## Maps with fewer entries -/

namespace SortedMap

variable {κ ν : Type} [Ord κ]

/-- The entries whose values pass a test. -/
def filterValues (test : ν → Bool) (m : SortedMap κ ν) : SortedMap κ ν where
  entries := m.entries.filter fun e => test e.2
  sorted := m.sorted.filter _

theorem find?_filterValues [Std.TransOrd κ] [Std.LawfulEqOrd κ] (test : ν → Bool)
    (m : SortedMap κ ν) (k : κ) : (m.filterValues test).find? k = (m.find? k).filter test := by
  refine Option.ext fun v => ?_
  rw [find?_eq_some_iff, Option.filter_eq_some_iff, find?_eq_some_iff]
  exact List.mem_filter

theorem filterValues_eq_self {test : ν → Bool} {m : SortedMap κ ν} :
    m.filterValues test = m ↔ ∀ v ∈ m.values, test v := by
  rw [values, List.forall_mem_map, ← List.filter_eq_self]
  constructor
  · exact congrArg entries
  · intro h
    obtain ⟨l, hl⟩ := m
    simp only [filterValues, mk.injEq]
    exact h

end SortedMap

/-! ## Written-out matrices -/

namespace DenseMatrix

variable {α : Type} [Zero α]

theorem entry_of_lt {d : DenseMatrix α} {row : Nat} (h : row < d.rows.length) (col : Nat) :
    d.entry row col = DenseVector.entry d.rows[row] col := by
  rw [entry, List.getD_eq_getElem?_getD, List.getElem?_eq_getElem h]
  rfl

/-- The rows are made of the entries inside the shape. -/
theorem rows_eq (d : DenseMatrix α) :
    d.rows = (List.range d.nrows).map fun row => (List.range d.ncols).map (d.entry row) := by
  refine List.ext_getElem (by simp [nrows]) fun row hr _ => ?_
  have hwidth : d.rows[row].length = d.ncols := d.uniform _ (List.getElem_mem hr)
  have hentry : d.entry row = DenseVector.entry d.rows[row] := funext (entry_of_lt hr)
  rw [List.getElem_map, List.getElem_range, hentry, ← hwidth, DenseVector.map_entry_range]

/-- Matrices of one shape with the same entries are equal. -/
theorem ext_entry {d e : DenseMatrix α} (hr : d.nrows = e.nrows) (hc : d.ncols = e.ncols)
    (h : ∀ row < d.nrows, ∀ col < d.ncols, d.entry row col = e.entry row col) : d = e := by
  have hrows : d.rows = e.rows := by
    rw [rows_eq d, rows_eq e, ← hr, ← hc]
    refine List.map_congr_left fun row hrow => List.map_congr_left fun col hcol => ?_
    exact h row (List.mem_range.1 hrow) col (List.mem_range.1 hcol)
  obtain ⟨n, rows, hd⟩ := d
  obtain ⟨n', rows', he⟩ := e
  obtain rfl : n = n' := hc
  obtain rfl : rows = rows' := hrows
  rfl

end DenseMatrix

namespace SparseMatrix

variable {α : Type}

/-! ## Storing a dense matrix -/

/-- Of lists for all numbers up to a bound, of which only one is not empty, this one is what they
hold. -/
theorem flatMap_range_eq {β : Type} {f : Nat → List β} {k : Nat} (h : ∀ j, j ≠ k → f j = [])
    (n : Nat) : (List.range n).flatMap f = if k < n then f k else [] := by
  induction n with
  | zero => rfl
  | succ n ih =>
    rw [List.range_succ, List.flatMap_append, ih, List.flatMap_singleton]
    by_cases hk : k = n
    · rw [if_neg (by omega), if_pos (by omega), hk]
      rfl
    · rw [h n (Ne.symm hk), List.append_nil]
      by_cases hlt : k < n
      · rw [if_pos hlt, if_pos (by omega)]
      · rw [if_neg hlt, if_neg (by omega)]

theorem valuesAt_flatMap {β : Type} (row col : Nat) (l : List β) (f : β → List (Entry α)) :
    valuesAt row col (l.flatMap f) = l.flatMap fun b => valuesAt row col (f b) := by
  simp only [valuesAt, List.filter_flatMap, List.map_flatMap]

section Store

variable [Zero α] [Add α] [BEq α]

omit [Add α] in
/-- A cell shows at its own place, unless it is zero. -/
theorem valuesAt_cell (d : DenseMatrix α) (row col r c : Nat) :
    valuesAt row col
      (if d.entry r c != 0 then some (⟨r, c, d.entry r c⟩ : Entry α) else none).toList =
        if r = row ∧ c = col ∧ d.entry r c != 0 then [d.entry r c] else [] := by
  by_cases hzero : d.entry r c != 0
  · simp [hzero, valuesAt_cons]
  · simp [hzero]

omit [Add α] in
theorem valuesAt_column (d : DenseMatrix α) (row col c : Nat) :
    valuesAt row col ((List.range d.nrows).filterMap fun r =>
      if d.entry r c != 0 then some (⟨r, c, d.entry r c⟩ : Entry α) else none) =
        if row < d.nrows ∧ c = col ∧ d.entry row c != 0 then [d.entry row c] else [] := by
  rw [List.filterMap_eq_flatMap_toList, valuesAt_flatMap]
  simp only [valuesAt_cell]
  -- only the cell in this row can show
  rw [flatMap_range_eq (k := row) fun r hr => if_neg fun h => hr h.1]
  by_cases hr : row < d.nrows <;> simp [hr]

/-- A dense matrix leaves out what compares equal to zero and stores the rest. -/
theorem get?_ofDense (d : DenseMatrix α) (row col : Nat) : (ofDense d).get? row col =
    if row < d.nrows ∧ col < d.ncols ∧ d.entry row col != 0 then some (d.entry row col)
    else none := by
  rw [ofDense, get?_ofEntries_eq, valuesAt_flatMap]
  simp only [valuesAt_column]
  rw [flatMap_range_eq (k := col) fun c hc => if_neg fun h => hc h.2.1]
  by_cases hr : row < d.nrows
  · by_cases hc : col < d.ncols
    · by_cases hzero : d.entry row col != 0 <;> simp [hr, hc, hzero, SortedMap.joined]
    · simp [hc]
  · simp [hr]

/-- The matrix without the zeros that it stores. -/
def withoutZeros (m : SparseMatrix α) : SparseMatrix α where
  nrows := m.nrows
  ncols := m.ncols
  stored := m.stored.filterValues (· != 0)
  inBounds := fun p hp => by
    obtain ⟨e, he, rfl⟩ := List.mem_map.1 hp
    exact m.inBounds e.1 (List.mem_map_of_mem (List.mem_filter.1 he).1)

omit [Add α] in
theorem get?_withoutZeros (m : SparseMatrix α) (row col : Nat) :
    m.withoutZeros.get? row col = (m.get? row col).filter (· != 0) :=
  SortedMap.find?_filterValues ..

omit [Add α] in
/-- The list of the entries that are not zero, in their order. -/
theorem entries_withoutZeros (m : SparseMatrix α) :
    m.withoutZeros.entries = m.entries.filter (·.value != 0) := by
  rw [entries, entries, List.filter_map]
  rfl

omit [Add α] in
theorem withoutZeros_eq_self [LawfulBEq α] {m : SparseMatrix α} :
    m.withoutZeros = m ↔ 0 ∉ m.values := by
  have hstored : m.withoutZeros = m ↔ m.stored.filterValues (· != 0) = m.stored := by
    constructor
    · exact congrArg stored
    · intro h
      exact ext_get? rfl rfl fun row col => congrArg (·.find? ⟨col, row⟩) h
  rw [hstored, SortedMap.filterValues_eq_self]
  constructor
  · intro h hzero
    simpa using h 0 hzero
  · intro h v hv
    rw [bne_iff_ne]
    rintro rfl
    exact h hv

end Store

/-! ## There and back -/

section RoundTrips

variable [AddZeroClass α]

/-- Written out, a matrix has zero where it stores nothing. -/
theorem entry_toDense {m : SparseMatrix α} {row col : Nat} (hr : row < m.nrows)
    (hc : col < m.ncols) :
    m.toDense.entry row col = (m.get? row col).getD 0 := by
  rw [DenseMatrix.entry_of_lt (by simpa [toDense] using hr)]
  simp only [toDense, List.getElem_map, List.getElem_range]
  rw [DenseVector.entry_map_range _ hc]
  cases m.get? row col with
  | none => rfl
  | some v => exact zero_add v

theorem nrows_toDense (m : SparseMatrix α) : m.toDense.nrows = m.nrows := by
  simp [toDense, DenseMatrix.nrows]

variable [BEq α] [LawfulBEq α]

theorem get?_ofDense_eq_some {d : DenseMatrix α} {row col : Nat} {v : α} :
    (ofDense d).get? row col = some v ↔
      row < d.nrows ∧ col < d.ncols ∧ d.entry row col = v ∧ v ≠ 0 := by
  rw [get?_ofDense, Option.ite_none_right_eq_some, bne_iff_ne]
  constructor
  · rintro ⟨⟨hr, hc, hzero⟩, ⟨⟩⟩
    exact ⟨hr, hc, rfl, hzero⟩
  · rintro ⟨hr, hc, rfl, hzero⟩
    exact ⟨⟨hr, hc, hzero⟩, rfl⟩

theorem toDense_ofDense (d : DenseMatrix α) : (ofDense d).toDense = d := by
  refine DenseMatrix.ext_entry (nrows_toDense _) rfl fun row hr col hc => ?_
  rw [nrows_toDense] at hr
  have hin : row < d.nrows ∧ col < d.ncols := ⟨hr, hc⟩
  rw [entry_toDense hr hc, get?_ofDense]
  by_cases hzero : d.entry row col = 0 <;> simp [hin, hzero]

theorem ofDense_toDense (m : SparseMatrix α) : ofDense m.toDense = m.withoutZeros := by
  refine ext_get?_of_lt (nrows_toDense m) rfl fun row hr col hc => ?_
  have hin : row < m.toDense.nrows ∧ col < m.toDense.ncols := ⟨hr, hc⟩
  have hrow : row < m.nrows := nrows_toDense m ▸ hr
  rw [get?_ofDense, entry_toDense hrow hc, get?_withoutZeros]
  cases m.get? row col with
  | none => simp
  | some v => by_cases hzero : v = 0 <;> simp [hin, hzero, Option.filter]

/-- Sparse and dense matrices say the same up to stored zeros. Whatever its shape, a dense matrix
has a compressed column form of its shape that stores its nonzero entries and nothing else, and
written out it is the matrix again. A sparse matrix that is written out comes back with the list of
its entries that are not zero, and so unchanged if and only if it stores no zero. -/
theorem ofDense_toDense_inverse :
    (∀ d : DenseMatrix α, (ofDense d).toDense = d ∧ (ofDense d).nrows = d.nrows ∧
      (ofDense d).ncols = d.ncols ∧ (ofDense d).Canonical ∧
      ∀ row col v, (ofDense d).get? row col = some v ↔
        row < d.nrows ∧ col < d.ncols ∧ d.entry row col = v ∧ v ≠ 0) ∧
    ∀ m : SparseMatrix α, ofDense m.toDense = m.withoutZeros ∧
      m.withoutZeros.entries = m.entries.filter (·.value != 0) ∧
      (ofDense m.toDense = m ↔ 0 ∉ m.values) := by
  refine ⟨fun d => ⟨toDense_ofDense d, rfl, rfl, canonical _,
    fun row col v => get?_ofDense_eq_some⟩,
    fun m => ⟨ofDense_toDense m, entries_withoutZeros m, ?_⟩⟩
  rw [ofDense_toDense, withoutZeros_eq_self]

/-- The dense matrix has a row of zeros, the sparse one stores a zero next to another entry. -/
theorem storedZero_inverse :
    let d : DenseMatrix Int := ⟨3, [[1, 0, 2], [0, 0, 0]], by decide⟩
    let m : SparseMatrix Int := ofTriplets 2 2 [0, 1] [1, 1] [0, 5]
    (ofDense d).toDense = d ∧ (ofDense d).get? 0 2 = some 2 ∧ (∀ v, (ofDense d).get? 1 1 ≠ some v) ∧
      ofDense m.toDense = m.withoutZeros ∧ ofDense m.toDense ≠ m := by
  intro d m
  obtain ⟨hdense, hsparse⟩ := ofDense_toDense_inverse (α := Int)
  obtain ⟨hback, -, -, -, hstores⟩ := hdense d
  obtain ⟨hwithout, -, hsame⟩ := hsparse m
  refine ⟨hback, (hstores 0 2 2).2 (by decide), fun v hv => ?_, hwithout,
    fun h => hsame.1 h (by decide)⟩
  obtain ⟨-, -, hentry, hzero⟩ := (hstores 1 1 v).1 hv
  exact hzero hentry.symm

end RoundTrips

end SparseMatrix

end Conic
