import Conic.SortedMap

/-!
# Sparse matrices

A sparse matrix is its shape and the finite map from stored positions to values. Positions are
ordered column by column and by row inside a column, which is the order of compressed column
storage; `colOffsets`, `rowIndices` and `values` are the three arrays of that format, and they
determine the matrix. A stored value may be zero.

Every matrix is made from a list of entries by `ofEntries`: entries outside the shape have no
effect, and values at one position are added in the order of the list (`get?_ofEntries`).
-/

namespace Conic

/-- A place in a matrix. -/
structure Position where
  col : Nat
  row : Nat
  deriving DecidableEq, Repr

namespace Position

/-- Column by column, and by row inside a column. -/
instance : Ord Position := ⟨compareLex (compareOn col) (compareOn row)⟩

instance : Std.TransOrd Position :=
  inferInstanceAs (Std.TransCmp (compareLex (compareOn col) (compareOn row)))

instance : Std.LawfulEqOrd Position where
  eq_of_compare {a b} h := by
    have h : (compare a.col b.col).then (compare a.row b.row) = .eq := h
    rw [Ordering.then_eq_eq] at h
    have hc : a.col = b.col := Nat.compare_eq_eq.1 h.1
    have hr : a.row = b.row := Nat.compare_eq_eq.1 h.2
    cases a; cases b; simp_all

end Position

/-- A value at a place. -/
structure Entry (α : Type) where
  row : Nat
  col : Nat
  value : α
  deriving Repr

/-- A matrix of `nrows` rows and `ncols` columns; a position without a value holds zero. -/
structure SparseMatrix (α : Type) where
  nrows : Nat
  ncols : Nat
  stored : SortedMap Position α
  inBounds : ∀ p ∈ stored.keys, p.row < nrows ∧ p.col < ncols

namespace SparseMatrix

variable {α : Type}

/-! ## Reading -/

/-- The stored value at a place, if there is one. -/
def get? (m : SparseMatrix α) (row col : Nat) : Option α := m.stored.find? ⟨col, row⟩

/-- The stored entries in storage order. -/
def entries (m : SparseMatrix α) : List (Entry α) :=
  m.stored.entries.map fun e => ⟨e.1.row, e.1.col, e.2⟩

/-- How many of some ascending numbers lie below `j`, below `j + 1` and so on, `n` times, if `count`
more lie below them all. -/
def countsBelow : Nat → Nat → Nat → List Nat → List Nat
  | 0, _, _, _ => []
  | n + 1, j, count, l =>
    let count := count + (l.takeWhile (· < j)).length
    count :: countsBelow n (j + 1) count (l.dropWhile (· < j))

theorem countsBelow_eq (n j count : Nat) {l : List Nat} (h : l.Pairwise (· ≤ ·)) :
    countsBelow n j count l = (List.range n).map fun i => count + l.countP (· < j + i) := by
  induction n generalizing j count l with
  | zero => rfl
  | succ n ih =>
    have hlow : ∀ a ∈ l.takeWhile (· < j), a < j := fun a ha => by
      simpa using List.all_eq_true.1 List.all_takeWhile a ha
    have hhigh : ∀ a ∈ l.dropWhile (· < j), j ≤ a := by
      clear ih hlow
      induction l with
      | nil => simp
      | cons b l ihl =>
        obtain ⟨hb, hl⟩ := List.pairwise_cons.1 h
        by_cases hbj : b < j
        · simpa [hbj] using ihl hl
        · simpa [hbj] using ⟨by omega, fun a ha => by have := hb a ha; omega⟩
    have hcount : ∀ i, l.countP (· < j + i) =
        (l.takeWhile (· < j)).length + (l.dropWhile (· < j)).countP (· < j + i) := fun i => by
      conv => lhs; rw [← List.takeWhile_append_dropWhile (p := (· < j)) (l := l)]
      rw [List.countP_append, List.countP_eq_length.2]
      exact fun a ha => by have := hlow a ha; simp; omega
    have hzero : (l.dropWhile (· < j)).countP (· < j) = 0 :=
      List.countP_eq_zero.2 fun a ha => by have := hhigh a ha; simp; omega
    simp only [countsBelow, List.range_succ_eq_map, List.map_cons, List.map_map, Nat.add_zero]
    rw [ih _ _ (h.sublist (List.dropWhile_sublist _))]
    congr 1
    · simpa [hzero] using (hcount 0).symm
    · refine List.map_congr_left fun i _ => ?_
      have := hcount (i + 1)
      simp only [Function.comp, Nat.succ_eq_add_one, Nat.add_assoc, Nat.add_comm 1 i] at this ⊢
      omega

/-- How many entries are stored before each column, and after the last one. -/
def colOffsets (m : SparseMatrix α) : List Nat :=
  countsBelow (m.ncols + 1) 0 0 (m.stored.keys.map Position.col)

theorem colOffsets_eq (m : SparseMatrix α) :
    m.colOffsets = (List.range (m.ncols + 1)).map fun j => m.stored.keys.countP (·.col < j) := by
  have h : (m.stored.keys.map Position.col).Pairwise (· ≤ ·) := by
    rw [List.pairwise_map, SortedMap.keys, List.pairwise_map]
    refine m.stored.sorted.imp fun {a b} hab => ?_
    have hab : (compare a.1.col b.1.col).then (compare a.1.row b.1.row) = .lt := hab
    rcases Ordering.then_eq_lt.1 hab with h | ⟨h, _⟩
    · exact Nat.le_of_lt (Nat.compare_eq_lt.1 h)
    · exact Nat.le_of_eq (Nat.compare_eq_eq.1 h)
  rw [colOffsets, countsBelow_eq _ _ _ h]
  simp [List.countP_map, Function.comp_def]

/-- The rows of the stored entries, in storage order. -/
def rowIndices (m : SparseMatrix α) : List Nat := m.stored.keys.map Position.row

/-- The stored values, in storage order. -/
def values (m : SparseMatrix α) : List α := m.stored.values

/-! ## Building -/

/-- The matrix that stores nothing. -/
def zeros (nrows ncols : Nat) : SparseMatrix α where
  nrows
  ncols
  stored := .empty
  inBounds := by simp [SortedMap.keys, SortedMap.empty]

/-- The entries that lie inside a shape, by their places. -/
def placed (nrows ncols : Nat) (l : List (Entry α)) : List (Position × α) :=
  l.filterMap fun e =>
    if e.row < nrows ∧ e.col < ncols then some (⟨e.col, e.row⟩, e.value) else none

/-- The matrix of a list of entries. -/
def ofEntries [Add α] (nrows ncols : Nat) (l : List (Entry α)) : SparseMatrix α where
  nrows
  ncols
  stored := .ofListWith (· + ·) (placed nrows ncols l)
  inBounds := fun p hp => by
    obtain ⟨e, he, rfl⟩ := SortedMap.exists_of_mem_keys_ofListWith hp
    obtain ⟨e, _, he⟩ := List.mem_filterMap.1 he
    grind

@[simp] theorem ofEntries_nrows [Add α] (nrows ncols : Nat) (l : List (Entry α)) :
    (ofEntries nrows ncols l).nrows = nrows := rfl

@[simp] theorem ofEntries_ncols [Add α] (nrows ncols : Nat) (l : List (Entry α)) :
    (ofEntries nrows ncols l).ncols = ncols := rfl

/-- What is stored at a place inside the shape is the sum of the values that the list has there. -/
theorem get?_ofEntries [Add α] {nrows ncols : Nat} {l : List (Entry α)} {row col : Nat}
    (hr : row < nrows) (hc : col < ncols) :
    (ofEntries nrows ncols l).get? row col = SortedMap.joined (· + ·)
      ((l.filter fun e => e.row = row ∧ e.col = col).map Entry.value) := by
  have hEq : ∀ p q : Position, compare p q = .eq ↔ p = q := fun p q =>
    ⟨Std.LawfulEqCmp.eq_of_compare, fun h => h ▸ Std.ReflCmp.compare_self⟩
  rw [get?, ofEntries, SortedMap.find?_ofListWith]
  congr 1
  induction l with
  | nil => rfl
  | cons e l ih =>
    simp only [SortedMap.valuesAt, placed, List.filterMap_cons, List.filter_cons, hEq] at ih ⊢
    grind

/-- The matrix of three lists that give row, column and value of each entry, as far as all three
go. -/
def ofTriplets [Add α] (nrows ncols : Nat) (rows cols : List Nat) (vals : List α) :
    SparseMatrix α :=
  ofEntries nrows ncols <|
    List.zipWith (fun place v => ⟨place.1, place.2, v⟩) (rows.zip cols) vals

/-- Ones on the diagonal. -/
def identity [Add α] [One α] (n : Nat) : SparseMatrix α :=
  ofEntries n n ((List.range n).map fun i => ⟨i, i, 1⟩)

@[simp] theorem identity_nrows [Add α] [One α] (n : Nat) :
    (identity n : SparseMatrix α).nrows = n := ofEntries_nrows ..

@[simp] theorem identity_ncols [Add α] [One α] (n : Nat) :
    (identity n : SparseMatrix α).ncols = n := ofEntries_ncols ..

/-! ## Arithmetic -/

/-- Change each stored value by itself. -/
def mapValues (f : α → α) (m : SparseMatrix α) : SparseMatrix α where
  nrows := m.nrows
  ncols := m.ncols
  stored := m.stored.mapValues f
  inBounds := fun p hp => m.inBounds p (SortedMap.keys_mapValues f m.stored ▸ hp)

/-- Each stored value times `c`. -/
def scale [Mul α] (m : SparseMatrix α) (c : α) : SparseMatrix α := m.mapValues (· * c)

/-- Each stored value times minus one. -/
def neg [Mul α] [Neg α] [One α] (m : SparseMatrix α) : SparseMatrix α := m.scale (-1)

/-- The sum in the shape of `a`: the entries of both, those of `b` that do not fit left out. -/
def add [Add α] (a b : SparseMatrix α) : SparseMatrix α :=
  ofEntries a.nrows a.ncols (a.entries ++ b.entries)

@[simp] theorem add_nrows [Add α] (a b : SparseMatrix α) : (a.add b).nrows = a.nrows :=
  ofEntries_nrows ..

@[simp] theorem add_ncols [Add α] (a b : SparseMatrix α) : (a.add b).ncols = a.ncols :=
  ofEntries_ncols ..

end SparseMatrix

end Conic
