import Conic.Proofs.SparseMatrix.Canonical

/-!
# Matrices of triplets

Rows, columns and values come in three lists, which need not be of one length. What they have at a
place is read off position by position, up to the end of the shortest list (`tripletsAt`). The
matrix stores the sum of these values, added in their order, at each place of its shape where there
are any, and so it depends on nothing else (`SparseMatrix.ofTriplets_classified`).
-/

namespace Conic

variable {α : Type}

/-- How many triplets three lists make. -/
def tripletCount (rows cols : List Nat) (vals : List α) : Nat :=
  min rows.length (min cols.length vals.length)

/-- The values of the triplets with this place, in their order. -/
def tripletsAt (rows cols : List Nat) (vals : List α) (row col : Nat) : List α :=
  (List.range (tripletCount rows cols vals)).filterMap fun k =>
    if rows[k]? = some row ∧ cols[k]? = some col then vals[k]? else none

theorem tripletsAt_cons (r c : Nat) (v : α) (rows cols : List Nat) (vals : List α) (row col : Nat) :
    tripletsAt (r :: rows) (c :: cols) (v :: vals) row col =
      if r = row ∧ c = col then v :: tripletsAt rows cols vals row col
      else tripletsAt rows cols vals row col := by
  have hcount :
      tripletCount (r :: rows) (c :: cols) (v :: vals) = tripletCount rows cols vals + 1 := by
    simp only [tripletCount, List.length_cons]
    omega
  rw [tripletsAt, hcount, List.range_succ_eq_map, List.filterMap_cons, List.filterMap_map]
  by_cases h : r = row ∧ c = col
  · simp [h, tripletsAt]
  · simp [h, tripletsAt]

theorem tripletsAt_of_count_eq_zero {rows cols : List Nat} {vals : List α}
    (h : tripletCount rows cols vals = 0) (row col : Nat) :
    tripletsAt rows cols vals row col = [] := by
  rw [tripletsAt, h]
  rfl

/-- There are values at a place if it is the place of a triplet. -/
theorem tripletsAt_ne_nil {rows cols : List Nat} {vals : List α} {row col : Nat} :
    tripletsAt rows cols vals row col ≠ [] ↔
      ∃ k < tripletCount rows cols vals, rows[k]? = some row ∧ cols[k]? = some col := by
  rw [tripletsAt, ne_eq, List.filterMap_eq_nil_iff]
  constructor
  · intro h
    by_contra hnone
    refine h fun k hk => if_neg fun hplace => hnone ⟨k, List.mem_range.1 hk, hplace⟩
  · rintro ⟨k, hk, hplace⟩ h
    have hval : k < vals.length := by
      rw [tripletCount] at hk
      omega
    have hnone := h k (List.mem_range.2 hk)
    rw [if_pos hplace, List.getElem?_eq_getElem hval] at hnone
    cases hnone

namespace SparseMatrix

/-- Triplets are the entries of a list, as far as all three lists go. -/
theorem valuesAt_zipWith (rows cols : List Nat) (vals : List α) (row col : Nat) :
    valuesAt row col (List.zipWith (fun place v => ⟨place.1, place.2, v⟩) (rows.zip cols) vals) =
      tripletsAt rows cols vals row col := by
  induction rows generalizing cols vals with
  | nil => rw [tripletsAt_of_count_eq_zero (Nat.zero_min _)]; rfl
  | cons r rows ih =>
    cases cols with
    | nil => rw [tripletsAt_of_count_eq_zero (by simp [tripletCount])]; rfl
    | cons c cols =>
      cases vals with
      | nil => rw [tripletsAt_of_count_eq_zero (by simp [tripletCount])]; rfl
      | cons v vals =>
        rw [List.zip_cons_cons, List.zipWith_cons_cons, valuesAt_cons, ih, tripletsAt_cons]

variable [Add α]

/-- A place of the shape stores the values of its triplets, added from the first one on. -/
theorem get?_ofTriplets (nrows ncols : Nat) (rows cols : List Nat) (vals : List α) (row col : Nat) :
    (ofTriplets nrows ncols rows cols vals).get? row col =
      if row < nrows ∧ col < ncols then
        SortedMap.joined (· + ·) (tripletsAt rows cols vals row col)
      else none := by
  rw [ofTriplets, get?_ofEntries_eq, valuesAt_zipWith]

/-- The matrix of three lists, whatever their lengths are. It is a compressed column form of the
shape asked for. A place is stored if it is the place of a triplet and lies inside the shape, and
then what is stored is the first of its values plus the others one after the other, in the order of
the lists. Nothing else about the lists matters: those with the same values, in the same order, at
each place of the shape make the same matrix. -/
theorem ofTriplets_classified (nrows ncols : Nat) (rows cols : List Nat) (vals : List α) :
    (ofTriplets nrows ncols rows cols vals).nrows = nrows ∧
    (ofTriplets nrows ncols rows cols vals).ncols = ncols ∧
    (ofTriplets nrows ncols rows cols vals).Canonical ∧
    (∀ row col, (∃ v, (ofTriplets nrows ncols rows cols vals).get? row col = some v) ↔
      row < nrows ∧ col < ncols ∧
        ∃ k < tripletCount rows cols vals, rows[k]? = some row ∧ cols[k]? = some col) ∧
    (∀ row < nrows, ∀ col < ncols, ∀ first rest, tripletsAt rows cols vals row col = first :: rest →
      (ofTriplets nrows ncols rows cols vals).get? row col = some (rest.foldl (· + ·) first)) ∧
    ∀ (rows' cols' : List Nat) (vals' : List α),
      (∀ row < nrows, ∀ col < ncols,
        tripletsAt rows' cols' vals' row col = tripletsAt rows cols vals row col) →
      ofTriplets nrows ncols rows' cols' vals' = ofTriplets nrows ncols rows cols vals := by
  refine ⟨rfl, rfl, canonical _, fun row col => ?_, fun row hrow col hcol first rest hvalues => ?_,
    fun rows' cols' vals' hsame => ext_get?_of_lt rfl rfl fun row hrow col hcol => ?_⟩
  · rw [get?_ofTriplets, ← tripletsAt_ne_nil]
    by_cases hin : row < nrows ∧ col < ncols
    · rw [if_pos hin]
      cases tripletsAt rows cols vals row col <;> simp [SortedMap.joined, hin]
    · rw [if_neg hin]
      constructor
      · rintro ⟨v, hv⟩
        cases hv
      · rintro ⟨hrow, hcol, -⟩
        exact absurd ⟨hrow, hcol⟩ hin
  · rw [get?_ofTriplets, if_pos ⟨hrow, hcol⟩, hvalues]
    rfl
  · rw [get?_ofTriplets, get?_ofTriplets, hsame row hrow col hcol]

/-- Of seven rows six count. Two of their triplets lie outside, two are at one place, one is
zero. -/
theorem sixTriplets_classified :
    let rows := [0, 1, 2, 0, 0, 1, 0]
    let cols := [0, 1, 0, 0, 3, 0]
    let vals : List Int := [5, 0, 9, -2, 9, 7]
    let m := ofTriplets 2 2 rows cols vals
    m.Canonical ∧ m.get? 0 0 = some 3 ∧ (∃ v, m.get? 1 1 = some v) ∧ (¬ ∃ v, m.get? 0 1 = some v) ∧
      ofTriplets 2 2 [1, 1, 0, 0] [1, 0, 0, 0] [0, 7, 5, -2] = m := by
  intro rows cols vals m
  obtain ⟨-, -, hcanonical, hstored, hsum, hsame⟩ := ofTriplets_classified 2 2 rows cols vals
  refine ⟨hcanonical, hsum 0 (by decide) 0 (by decide) 5 [-2] rfl, ?_, ?_, ?_⟩
  · exact (hstored 1 1).2 ⟨by decide, by decide, 1, by decide, rfl, rfl⟩
  · rintro h
    obtain ⟨-, -, k, hk, hplace⟩ := (hstored 0 1).1 h
    revert k
    decide
  · exact hsame _ _ _ (by decide)

end SparseMatrix

end Conic
