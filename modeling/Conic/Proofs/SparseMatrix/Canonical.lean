import Conic.Proofs.SparseMatrix.Stored

/-!
# Compressed column storage

The three arrays of a matrix are its compressed column form (`canonical`): the offsets ascend from
zero to the number of stored entries, and between the offset of a column and the next one stand the
entries of that column, by strictly ascending row. No entry is left out and none stands there twice,
so equal matrices have equal arrays and the arrays determine the matrix.
-/

namespace Conic

/-! ## Prefixes that a property cuts off -/

section Prefix

variable {β : Type} {p : β → Bool} {l : List β}

/-- A property that never returns once it is lost holds of a prefix, which ends where the count
says. -/
theorem take_countP (h : l.Pairwise fun a b => p b → p a) : l.take (l.countP p) = l.filter p := by
  induction l with
  | nil => rfl
  | cons a l ih =>
    obtain ⟨ha, hl⟩ := List.pairwise_cons.1 h
    by_cases hp : p a
    · rw [List.countP_cons_of_pos hp, List.take_succ_cons, List.filter_cons_of_pos hp, ih hl]
    · -- lost at the head, and so everywhere
      have hnone : ∀ b ∈ l, ¬ p b := fun b hb hpb => hp (ha b hb hpb)
      rw [List.countP_cons_of_neg hp, List.filter_cons_of_neg hp, List.countP_eq_zero.2 hnone,
        List.filter_eq_nil_iff.2 hnone, List.take_zero]

theorem drop_countP (h : l.Pairwise fun a b => p b → p a) :
    l.drop (l.countP p) = l.filter (!p ·) := by
  induction l with
  | nil => rfl
  | cons a l ih =>
    obtain ⟨ha, hl⟩ := List.pairwise_cons.1 h
    by_cases hp : p a
    · rw [List.countP_cons_of_pos hp, List.drop_succ_cons,
        List.filter_cons_of_neg (by simpa using hp), ih hl]
    · have hnone : ∀ b ∈ l, ¬ p b := fun b hb hpb => hp (ha b hb hpb)
      have hall : l.filter (!p ·) = l := List.filter_eq_self.2 fun b hb => by simpa using hnone b hb
      rw [List.countP_cons_of_neg hp, List.filter_cons_of_pos (by simpa using hp),
        List.countP_eq_zero.2 hnone, List.drop_zero, hall]

end Prefix

namespace SparseMatrix

variable {α : Type}

/-- Rows and values that the arrays have between the offset of a column and the next one. -/
def column (m : SparseMatrix α) (col : Nat) : List (Nat × α) :=
  ((m.rowIndices.zip m.values).take (m.colOffsets.getD (col + 1) 0)).drop (m.colOffsets.getD col 0)

/-- The arrays are a compressed column form, and one of this matrix. -/
structure Canonical (m : SparseMatrix α) : Prop where
  length_colOffsets : m.colOffsets.length = m.ncols + 1
  first_offset : m.colOffsets.getD 0 0 = 0
  last_offset : m.colOffsets.getD m.ncols 0 = m.values.length
  ascending_offsets : m.colOffsets.Pairwise (· ≤ ·)
  length_rowIndices : m.rowIndices.length = m.values.length
  row_lt : ∀ row ∈ m.rowIndices, row < m.nrows
  ascending_rows : ∀ col < m.ncols, ((m.column col).map Prod.fst).Pairwise (· < ·)
  stores : ∀ col < m.ncols, ∀ row v, (row, v) ∈ m.column col ↔ m.get? row col = some v

/-! ## Offsets -/

theorem colOffsets_getD (m : SparseMatrix α) {j : Nat} (h : j ≤ m.ncols) :
    m.colOffsets.getD j 0 = m.stored.entries.countP (·.1.col < j) := by
  rw [colOffsets_eq, List.getD_eq_getElem?_getD, List.getElem?_map, List.getElem?_range (by omega)]
  show m.stored.keys.countP _ = _
  rw [SortedMap.keys, List.countP_map]
  rfl

/-- The entries are ordered by column. -/
theorem pairwise_col_le (m : SparseMatrix α) :
    m.stored.entries.Pairwise fun a b => a.1.col ≤ b.1.col := by
  refine m.stored.sorted.imp fun {a b} hab => ?_
  have hab : (compare a.1.col b.1.col).then (compare a.1.row b.1.row) = .lt := hab
  rcases Ordering.then_eq_lt.1 hab with h | ⟨h, _⟩
  · exact Nat.le_of_lt (Nat.compare_eq_lt.1 h)
  · exact Nat.le_of_eq (Nat.compare_eq_eq.1 h)

theorem pairwise_colOffsets (m : SparseMatrix α) : m.colOffsets.Pairwise (· ≤ ·) := by
  rw [colOffsets_eq, List.pairwise_map]
  refine List.pairwise_lt_range.imp fun {i j} hij => List.countP_mono_left fun p _ hp => ?_
  simp only [decide_eq_true_eq] at hp ⊢
  omega

/-! ## Columns -/

theorem zip_rowIndices_values (m : SparseMatrix α) :
    m.rowIndices.zip m.values = m.stored.entries.map fun e => (e.1.row, e.2) := by
  rw [rowIndices, values, SortedMap.keys, SortedMap.values, List.map_map, List.zip_map']
  rfl

/-- Between two offsets stand the entries of the column, in their order. -/
theorem column_eq (m : SparseMatrix α) {col : Nat} (h : col < m.ncols) :
    m.column col =
      (m.stored.entries.filter (·.1.col = col)).map fun e => (e.1.row, e.2) := by
  have hbelow : ∀ j, m.stored.entries.Pairwise fun a b =>
      decide (b.1.col < j) → decide (a.1.col < j) := by
    intro j
    refine m.pairwise_col_le.imp fun {a b} hab hb => ?_
    simp only [decide_eq_true_eq] at hb ⊢
    omega
  have hcount : m.stored.entries.countP (·.1.col < col) =
      (m.stored.entries.filter (·.1.col < col + 1)).countP (·.1.col < col) := by
    rw [List.countP_filter]
    refine List.countP_congr fun e _ => ?_
    simp only [decide_eq_true_eq, Bool.and_eq_true]
    omega
  rw [column, zip_rowIndices_values, ← List.map_take, ← List.map_drop, m.colOffsets_getD h,
    m.colOffsets_getD (Nat.le_of_lt h), take_countP (hbelow _), hcount,
    drop_countP ((hbelow _).filter _), List.filter_filter]
  refine congrArg (List.map _) (List.filter_congr fun e _ => ?_)
  rw [Bool.eq_iff_iff]
  simp only [Bool.and_eq_true, Bool.not_eq_true', decide_eq_true_eq, decide_eq_false_iff_not]
  omega

theorem pairwise_column (m : SparseMatrix α) {col : Nat} (h : col < m.ncols) :
    ((m.column col).map Prod.fst).Pairwise (· < ·) := by
  rw [column_eq m h, List.map_map, List.pairwise_map, List.pairwise_filter]
  refine m.stored.sorted.imp fun {a b} hab ha hb => ?_
  have hab : (compare a.1.col b.1.col).then (compare a.1.row b.1.row) = .lt := hab
  simp only [decide_eq_true_eq] at ha hb
  rcases Ordering.then_eq_lt.1 hab with hcol | ⟨_, hrow⟩
  · -- one column cannot stand before itself
    have := Nat.compare_eq_lt.1 hcol
    omega
  · exact Nat.compare_eq_lt.1 hrow

theorem mem_column (m : SparseMatrix α) {col : Nat} (h : col < m.ncols) {row : Nat} {v : α} :
    (row, v) ∈ m.column col ↔ m.get? row col = some v := by
  rw [column_eq m h, get?, SortedMap.find?_eq_some_iff, List.mem_map]
  constructor
  · rintro ⟨⟨⟨c, r⟩, w⟩, he, hrow⟩
    obtain ⟨he, hcol⟩ := List.mem_filter.1 he
    simp only [Prod.mk.injEq, decide_eq_true_eq] at hrow hcol
    obtain ⟨rfl, rfl⟩ := hrow
    rw [← hcol]
    exact he
  · intro he
    exact ⟨(⟨col, row⟩, v), List.mem_filter.2 ⟨he, decide_eq_true rfl⟩, rfl⟩

/-- Every matrix is stored in compressed column form. -/
theorem canonical (m : SparseMatrix α) : m.Canonical where
  length_colOffsets := by rw [colOffsets_eq, List.length_map, List.length_range]
  first_offset := by
    rw [m.colOffsets_getD (Nat.zero_le _)]
    exact List.countP_eq_zero.2 fun e _ => by simp
  last_offset := by
    rw [m.colOffsets_getD (Nat.le_refl _), values, SortedMap.values, List.length_map]
    refine List.countP_eq_length.2 fun e he => ?_
    simpa using (m.inBounds e.1 (List.mem_map_of_mem he)).2
  ascending_offsets := m.pairwise_colOffsets
  length_rowIndices := by simp [rowIndices, values, SortedMap.keys, SortedMap.values]
  row_lt := by
    intro row hrow
    obtain ⟨p, hp, rfl⟩ := List.mem_map.1 hrow
    exact (m.inBounds p hp).1
  ascending_rows := fun _ hcol => m.pairwise_column hcol
  stores := fun _ hcol _ _ => m.mem_column hcol

end SparseMatrix

end Conic
