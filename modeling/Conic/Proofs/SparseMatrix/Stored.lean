import Conic.Proofs.SortedMap
import Conic.SparseMatrix.Rows
import Mathlib.Algebra.GroupWithZero.Nat
import Mathlib.Data.List.Nodup

/-!
# What built matrices store

Every operation on sparse matrices makes a list of entries and hands it to `ofEntries`. Here each of
them gets one equation for `get?`, which says what the result stores at a place in terms of what its
arguments store. None of them looks at the values, so they hold for floating-point scalars as well.

The list of a matrix holds each place at most once (`valuesAt_entries`); the rest is bookkeeping
about lists of entries.
-/

namespace Conic

/-! ## Lists of entries -/

namespace SparseMatrix

variable {α : Type}

/-- The values that a list of entries has at a place, in the order of the list. -/
def valuesAt (row col : Nat) (l : List (Entry α)) : List α :=
  (l.filter fun e => e.row = row ∧ e.col = col).map Entry.value

@[simp] theorem valuesAt_nil (row col : Nat) : valuesAt row col ([] : List (Entry α)) = [] := rfl

theorem valuesAt_append (row col : Nat) (l r : List (Entry α)) :
    valuesAt row col (l ++ r) = valuesAt row col l ++ valuesAt row col r := by
  simp [valuesAt]

theorem valuesAt_cons (row col : Nat) (e : Entry α) (l : List (Entry α)) :
    valuesAt row col (e :: l) =
      if e.row = row ∧ e.col = col then e.value :: valuesAt row col l else valuesAt row col l := by
  simp only [valuesAt, List.filter_cons, decide_eq_true_eq]
  split <;> rfl

theorem valuesAt_eq_nil {row col : Nat} {l : List (Entry α)} (h : ∀ e ∈ l, e.row ≠ row) :
    valuesAt row col l = [] := by
  simp only [valuesAt, List.map_eq_nil_iff, List.filter_eq_nil_iff, decide_eq_true_eq]
  intro e he hplace
  exact h e he hplace.1

/-- The list of a matrix has at each place what is stored there. -/
theorem valuesAt_entries (m : SparseMatrix α) (row col : Nat) :
    valuesAt row col m.entries = (m.get? row col).toList := by
  rw [get?, ← SortedMap.valuesAt_entries]
  simp only [valuesAt, entries, SortedMap.valuesAt]
  induction m.stored.entries with
  | nil => rfl
  | cons e l ih =>
    have hplace : compare (⟨col, row⟩ : Position) e.1 = .eq ↔ e.1.row = row ∧ e.1.col = col := by
      rw [SortedMap.compare_eq_iff]
      constructor
      · rintro h
        rw [← h]
        exact ⟨rfl, rfl⟩
      · rintro ⟨rfl, rfl⟩
        rfl
    simp only [List.map_cons, List.filterMap_cons, List.filter_cons, hplace, decide_eq_true_eq]
    split
    · simpa using ih
    · exact ih

theorem lt_of_mem_entries {m : SparseMatrix α} {e : Entry α} (h : e ∈ m.entries) :
    e.row < m.nrows ∧ e.col < m.ncols := by
  obtain ⟨d, hd, rfl⟩ := List.mem_map.1 h
  exact m.inBounds d.1 (List.mem_map_of_mem hd)

/-- What is stored lies inside the shape. -/
theorem lt_of_get?_eq_some {m : SparseMatrix α} {row col : Nat} {v : α}
    (h : m.get? row col = some v) :
    row < m.nrows ∧ col < m.ncols :=
  m.inBounds ⟨col, row⟩ (List.mem_map_of_mem (SortedMap.find?_eq_some_iff.1 h))

/-- Nothing is stored outside the shape. -/
theorem get?_eq_none {m : SparseMatrix α} {row col : Nat} (h : m.nrows ≤ row ∨ m.ncols ≤ col) :
    m.get? row col = none := by
  cases hv : m.get? row col with
  | none => rfl
  | some v =>
    have hin := lt_of_get?_eq_some hv
    omega

/-- Matrices of one shape that store the same are equal. -/
theorem ext_get? {m n : SparseMatrix α} (hr : m.nrows = n.nrows) (hc : m.ncols = n.ncols)
    (h : ∀ row col, m.get? row col = n.get? row col) : m = n := by
  obtain ⟨r, c, s, hs⟩ := m
  obtain ⟨r', c', s', hs'⟩ := n
  obtain rfl : r = r' := hr
  obtain rfl : c = c' := hc
  have hstored : s = s' := SortedMap.ext_find? fun p => h p.row p.col
  subst hstored
  rfl

/-- Only the places inside the shape matter. -/
theorem ext_get?_of_lt {m n : SparseMatrix α} (hr : m.nrows = n.nrows) (hc : m.ncols = n.ncols)
    (h : ∀ row < m.nrows, ∀ col < m.ncols, m.get? row col = n.get? row col) : m = n := by
  refine ext_get? hr hc fun row col => ?_
  by_cases hin : row < m.nrows ∧ col < m.ncols
  · exact h row hin.1 col hin.2
  · rw [get?_eq_none (m := m) (by omega), get?_eq_none (m := n) (by omega)]

/-! ## The operations -/

@[simp] theorem get?_zeros (nrows ncols row col : Nat) :
    (zeros nrows ncols : SparseMatrix α).get? row col = none := rfl

theorem get?_mapValues (f : α → α) (m : SparseMatrix α) (row col : Nat) :
    (m.mapValues f).get? row col = (m.get? row col).map f :=
  SortedMap.find?_mapValues f m.stored _

variable [Add α]

theorem get?_ofEntries_eq (nrows ncols : Nat) (l : List (Entry α)) (row col : Nat) :
    (ofEntries nrows ncols l).get? row col =
      if row < nrows ∧ col < ncols then SortedMap.joined (· + ·) (valuesAt row col l)
      else none := by
  split
  case isTrue h => exact get?_ofEntries h.1 h.2
  case isFalse h => exact get?_eq_none (by simp only [ofEntries_nrows, ofEntries_ncols]; omega)

/-- A sum stores the values of both matrices as far as they fit, added where both have one. -/
theorem get?_add_eq (m n : SparseMatrix α) (row col : Nat) : (m.add n).get? row col =
    if row < m.nrows ∧ col < m.ncols then (m.get? row col).merge (· + ·) (n.get? row col)
    else none := by
  rw [add, get?_ofEntries_eq, valuesAt_append, valuesAt_entries, valuesAt_entries,
    SortedMap.joined_toList_append]

theorem get?_add {m n : SparseMatrix α} (hr : m.nrows = n.nrows) (hc : m.ncols = n.ncols)
    (row col : Nat) : (m.add n).get? row col = (m.get? row col).merge (· + ·) (n.get? row col) := by
  rw [get?_add_eq]
  split
  · rfl
  · rw [get?_eq_none (m := m) (by omega), get?_eq_none (m := n) (by omega)]
    rfl

/-- What the blocks of a stack store at a row of the stack. -/
def stackedAt : List (SparseMatrix α) → Nat → Nat → Option α
  | [], _, _ => none
  | m :: ms, row, col =>
    if row < m.nrows then m.get? row col else stackedAt ms (row - m.nrows) col

omit [Add α] in
theorem stackedAt_eq_none {blocks : List (SparseMatrix α)} {row : Nat}
    (h : (blocks.map nrows).sum ≤ row) (col : Nat) : stackedAt blocks row col = none := by
  induction blocks generalizing row with
  | nil => rfl
  | cons m ms ih =>
    simp only [List.map_cons, List.sum_cons] at h
    rw [stackedAt, if_neg (by omega)]
    exact ih (by omega)

omit [Add α] in
theorem le_row_of_mem_stackedEntries {offset : Nat} {blocks : List (SparseMatrix α)} {e : Entry α}
    (h : e ∈ stackedEntries offset blocks) : offset ≤ e.row := by
  induction blocks generalizing offset with
  | nil => cases h
  | cons m ms ih =>
    rw [stackedEntries, List.mem_append] at h
    rcases h with h | h
    · obtain ⟨d, _, rfl⟩ := List.mem_map.1 h
      exact Nat.le_add_right ..
    · exact Nat.le_trans (Nat.le_add_right ..) (ih h)

omit [Add α] in
/-- Entries moved down by `offset` rows are found `offset` rows further down. -/
theorem valuesAt_shift (offset row col : Nat) (l : List (Entry α)) :
    valuesAt (offset + row) col (l.map fun e => ⟨offset + e.row, e.col, e.value⟩) =
      valuesAt row col l := by
  induction l with
  | nil => rfl
  | cons e l ih => simp only [List.map_cons, valuesAt_cons, ih, Nat.add_left_cancel_iff]

omit [Add α] in
theorem valuesAt_stackedEntries (offset : Nat) (blocks : List (SparseMatrix α)) (row col : Nat) :
    valuesAt (offset + row) col (stackedEntries offset blocks) =
      (stackedAt blocks row col).toList := by
  induction blocks generalizing offset row with
  | nil => rfl
  | cons m ms ih =>
    rw [stackedEntries, valuesAt_append, valuesAt_shift, valuesAt_entries, stackedAt]
    split
    case isTrue h =>
      have hbelow : valuesAt (offset + row) col (stackedEntries (offset + m.nrows) ms) = [] :=
        valuesAt_eq_nil fun e he => by
          have := le_row_of_mem_stackedEntries he
          omega
      rw [hbelow, List.append_nil]
    case isFalse h =>
      have hrow : offset + row = offset + m.nrows + (row - m.nrows) := by omega
      rw [get?_eq_none (by omega), hrow, ih]
      rfl

/-- A stack stores in each row what the block of that row stores. -/
theorem get?_stack (blocks : List (SparseMatrix α)) (ncols row col : Nat) :
    (stack blocks ncols).get? row col = if col < ncols then stackedAt blocks row col else none := by
  have hvalues := valuesAt_stackedEntries 0 blocks row col
  rw [Nat.zero_add] at hvalues
  rw [stack, get?_ofEntries_eq, hvalues, SortedMap.joined_toList]
  by_cases hrow : row < (blocks.map nrows).sum
  · simp only [hrow, true_and]
  · rw [stackedAt_eq_none (by omega)]
    simp

omit [Add α] in
/-- Row `i` of block `k` is the row of the stack that comes `i` rows after the blocks above. -/
theorem stackedAt_block {blocks : List (SparseMatrix α)} {k : Nat} (hk : k < blocks.length)
    {i : Nat} (hi : i < blocks[k].nrows) (col : Nat) :
    stackedAt blocks (((blocks.take k).map nrows).sum + i) col = blocks[k].get? i col := by
  induction blocks generalizing k with
  | nil => cases hk
  | cons m ms ih =>
    cases k with
    | zero =>
      simp only [List.getElem_cons_zero] at hi
      simp [stackedAt, hi]
    | succ k =>
      have hrow : ¬ m.nrows + ((ms.take k).map nrows).sum + i < m.nrows := by omega
      have hsub : m.nrows + ((ms.take k).map nrows).sum + i - m.nrows =
          ((ms.take k).map nrows).sum + i := by omega
      simp only [List.take_succ_cons, List.map_cons, List.sum_cons, stackedAt, hrow, if_false, hsub,
        List.getElem_cons_succ]
      exact ih _ hi

/-! ## Rows picked and moved -/

end SparseMatrix

/-- A place is listed once where the value stands, and not at all elsewhere. -/
theorem filter_placesOf (x : Nat) (l : List Nat) (i : Nat) :
    (placesOf x l).filter (· = i) = if l[i]? = some x then [i] else [] := by
  have go : ∀ (l : List Nat) (start i : Nat),
      ((l.zipIdx start).filterMap fun e => if e.1 == x then some e.2 else none).filter
        (· = start + i) = if l[i]? = some x then [start + i] else [] := by
    intro l
    induction l with
    | nil =>
      intro start i
      rfl
    | cons a l ih =>
      intro start i
      -- what comes after the first element stands after `start`
      have hlater : ∀ j, (x, j) ∈ l.zipIdx (start + 1) → ¬ j = start := by
        intro j hj
        have hle := (List.mem_zipIdx hj).1
        omega
      cases i with
      | zero => by_cases ha : a = x <;> simpa [ha] using hlater
      | succ i =>
        have hstart : start + (i + 1) = start + 1 + i := by omega
        have hne : start ≠ start + 1 + i := by omega
        rw [hstart, List.getElem?_cons_succ, ← ih (start + 1) i]
        by_cases ha : a = x <;> simp [ha, hne]
  have hzero := go l 0 i
  rw [Nat.zero_add] at hzero
  exact hzero

namespace SparseMatrix

variable {α : Type} [Add α]

omit [Add α] in
theorem valuesAt_map_row (i col : Nat) (e : Entry α) (places : List Nat) :
    valuesAt i col (places.map fun row => ⟨row, e.col, e.value⟩) =
      if e.col = col then (places.filter (· = i)).map fun _ => e.value else [] := by
  induction places with
  | nil => split <;> rfl
  | cons p places ih =>
    rw [List.map_cons, valuesAt_cons, ih]
    by_cases hp : p = i <;> by_cases hc : e.col = col <;> simp [hp, hc]

/-- Row `i` of a selection is row `rows[i]` of the matrix. -/
theorem get?_selectRows (m : SparseMatrix α) (rows : List Nat) (i col : Nat) :
    (m.selectRows rows).get? i col = rows[i]?.bind (m.get? · col) := by
  have hvalues : ∀ l : List (Entry α),
      valuesAt i col (l.flatMap fun e => (placesOf e.row rows).map fun row =>
        ⟨row, e.col, e.value⟩) =
      rows[i]?.elim [] (valuesAt · col l) := by
    intro l
    induction l with
    | nil => cases rows[i]? <;> rfl
    | cons e l ih =>
      rw [List.flatMap_cons, valuesAt_append, valuesAt_map_row, filter_placesOf, ih]
      cases hr : rows[i]? with
      | none => by_cases hc : e.col = col <;> simp [hc]
      | some r =>
        simp only [Option.elim_some, valuesAt_cons, Option.some.injEq]
        by_cases hrow : e.row = r
        · by_cases hc : e.col = col <;> simp [hrow, hc]
        · by_cases hc : e.col = col <;> simp [hrow, hc, Ne.symm hrow]
  rw [selectRows, get?_ofEntries_eq, hvalues]
  cases hr : rows[i]? with
  | none =>
    rw [List.getElem?_eq_none_iff] at hr
    rw [if_neg (by omega)]
    rfl
  | some r =>
    obtain ⟨hi, -⟩ := List.getElem?_eq_some_iff.1 hr
    show (if _ then SortedMap.joined _ (valuesAt r col m.entries) else none) = m.get? r col
    rw [valuesAt_entries, SortedMap.joined_toList]
    split
    · rfl
    · rw [get?_eq_none (by omega)]

/-- Row `i` of a matrix is found on row `dest[i]` after the rows were moved to different places. -/
theorem get?_scatterRows_dest (m : SparseMatrix α) {dest : List Nat} (hd : dest.Nodup)
    {nrows i : Nat} (hi : i < dest.length) (hn : dest[i] < nrows) (col : Nat) :
    (m.scatterRows dest nrows).get? dest[i] col = m.get? i col := by
  have hvalues : ∀ l : List (Entry α),
      valuesAt dest[i] col (l.filterMap fun e => dest[e.row]?.map fun row =>
        ⟨row, e.col, e.value⟩) = valuesAt i col l := by
    intro l
    induction l with
    | nil => rfl
    | cons e l ih =>
      rw [List.filterMap_cons, valuesAt_cons]
      cases hr : dest[e.row]? with
      | none =>
        have hne : e.row ≠ i := by
          rintro rfl
          rw [List.getElem?_eq_none_iff] at hr
          omega
        simpa [hne] using ih
      | some r =>
        obtain ⟨hlt, rfl⟩ := List.getElem?_eq_some_iff.1 hr
        have hrow : dest[e.row] = dest[i] ↔ e.row = i := hd.getElem_inj_iff
        simp only [Option.map_some, valuesAt_cons, ih, hrow]
  rw [scatterRows, get?_ofEntries_eq, hvalues, valuesAt_entries, SortedMap.joined_toList]
  split
  · rfl
  · rw [get?_eq_none (by omega)]

/-- Nothing is stored on a row that no row was moved to. -/
theorem get?_scatterRows_of_notMem (m : SparseMatrix α) {dest : List Nat} {row : Nat}
    (h : row ∉ dest) (nrows col : Nat) : (m.scatterRows dest nrows).get? row col = none := by
  have hvalues : valuesAt row col (m.entries.filterMap fun e => dest[e.row]?.map fun row =>
      (⟨row, e.col, e.value⟩ : Entry α)) = [] := by
    refine valuesAt_eq_nil fun e he hrow => h ?_
    obtain ⟨d, _, hd⟩ := List.mem_filterMap.1 he
    obtain ⟨r, hr, rfl⟩ := Option.map_eq_some_iff.1 hd
    rw [← hrow]
    exact List.mem_of_getElem? hr
  rw [scatterRows, get?_ofEntries_eq, hvalues]
  split <;> rfl

end SparseMatrix

end Conic
