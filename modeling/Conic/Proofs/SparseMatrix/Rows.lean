import Conic.Proofs.SparseMatrix.Canonical

/-!
# Laws of stacking, picking and moving rows

A stack has the entries of its blocks, moved down by the rows above, and a part of it may be stacked
first, as long as a word counts the rows of all blocks together (`vstack_homomorphism`). Rows picked
from picked rows are picked rows, and rows that were moved to different places are picked up again
where they were put (`selectRows_scatterRows_laws`). The laws are equations of matrices, and so of
their arrays, in which stored zeros count.
-/

namespace Conic

namespace SparseMatrix

variable {α : Type}

/-! ## Stacks -/

/-- What stands on a row of a stack stands on a row of one of the blocks, as many rows further up as
the blocks above it have. -/
theorem stackedAt_eq_some_iff {blocks : List (SparseMatrix α)} {row col : Nat} {v : α} :
    stackedAt blocks row col = some v ↔ ∃ k b r, blocks[k]? = some b ∧
      row = ((blocks.take k).map nrows).sum + r ∧ b.get? r col = some v := by
  constructor
  · intro h
    induction blocks generalizing row with
    | nil => cases h
    | cons m ms ih =>
      rw [stackedAt] at h
      by_cases hhead : row < m.nrows
      · rw [if_pos hhead] at h
        exact ⟨0, m, row, rfl, (Nat.zero_add _).symm, h⟩
      · rw [if_neg hhead] at h
        obtain ⟨k, b, r, hb, hrow, hv⟩ := ih h
        refine ⟨k + 1, b, r, hb, ?_, hv⟩
        rw [List.take_succ_cons, List.map_cons, List.sum_cons]
        omega
  · rintro ⟨k, b, r, hb, rfl, hv⟩
    obtain ⟨hk, rfl⟩ := List.getElem?_eq_some_iff.1 hb
    rw [stackedAt_block hk (lt_of_get?_eq_some hv).1, hv]

theorem stackedAt_append (ms ns : List (SparseMatrix α)) (row col : Nat) :
    stackedAt (ms ++ ns) row col =
      if row < (ms.map nrows).sum then stackedAt ms row col
      else stackedAt ns (row - (ms.map nrows).sum) col := by
  induction ms generalizing row with
  | nil => simp
  | cons m ms ih =>
    rw [List.cons_append, stackedAt, stackedAt, ih, List.map_cons, List.sum_cons, Nat.sub_add_eq]
    by_cases hhead : row < m.nrows
    · rw [if_pos hhead, if_pos (by omega), if_pos hhead]
    · rw [if_neg hhead, if_neg hhead]
      by_cases htail : row - m.nrows < (ms.map nrows).sum
      · rw [if_pos htail, if_pos (by omega)]
      · rw [if_neg htail, if_neg (by omega)]

theorem stackedAt_singleton (m : SparseMatrix α) (row col : Nat) :
    stackedAt [m] row col = m.get? row col := by
  rw [stackedAt, stackedAt]
  split
  · rfl
  · exact (get?_eq_none (by omega)).symm

variable [Add α]

/-- Parts of a stack may be stacked first. -/
theorem stack_append (ms ns : List (SparseMatrix α)) (ncols : Nat) :
    stack (ms ++ ns) ncols = stack [stack ms ncols, stack ns ncols] ncols := by
  have hpair : [stack ms ncols, stack ns ncols] = [stack ms ncols] ++ [stack ns ncols] := rfl
  refine ext_get?_of_lt (by simp) rfl fun row _ col hcol => ?_
  rw [stack_ncols] at hcol
  rw [get?_stack, get?_stack, hpair, stackedAt_append, stackedAt_append]
  simp only [hcol, if_true, stackedAt_singleton, get?_stack, List.map_singleton, stack_nrows,
    List.sum_cons, List.sum_nil, Nat.add_zero]

/-- A stack of one matrix is the matrix. -/
theorem stack_singleton {m : SparseMatrix α} {ncols : Nat} (h : m.ncols = ncols) :
    stack [m] ncols = m := by
  refine ext_get?_of_lt (by simp) h.symm fun row _ col hcol => ?_
  rw [stack_ncols] at hcol
  rw [get?_stack, if_pos hcol, stackedAt_singleton]

/-! ## Stacks counted by words -/

omit [Add α] in
theorem row_lt_of_mem_stackedEntries {offset : Nat} {blocks : List (SparseMatrix α)} {e : Entry α}
    (h : e ∈ stackedEntries offset blocks) : e.row < offset + (blocks.map nrows).sum := by
  induction blocks generalizing offset with
  | nil => cases h
  | cons m ms ih =>
    rw [stackedEntries, List.mem_append] at h
    rw [List.map_cons, List.sum_cons]
    rcases h with h | h
    · obtain ⟨d, hd, rfl⟩ := List.mem_map.1 h
      have hrow := (lt_of_mem_entries hd).1
      show offset + d.row < _
      omega
    · have hrow := ih h
      omega

/-- Where a word counts all rows of a stack, nothing wraps. -/
theorem vstack_eq_stack {blocks : List (SparseMatrix α)} (h : (blocks.map nrows).sum < wordSize)
    (ncols : Nat) : vstack blocks ncols = stack blocks ncols := by
  have hentries : (stackedEntries 0 blocks).map (fun e => ⟨word e.row, e.col, e.value⟩) =
      stackedEntries 0 blocks := by
    refine (List.map_congr_left fun e he => ?_).trans (List.map_id _)
    have hrow := row_lt_of_mem_stackedEntries he
    rw [word_of_lt (by omega)]
    rfl
  rw [vstack, stack, word_of_lt h, hentries]

/-- A stack has the rows of all its blocks as far as a word counts them: its number of rows is right
if and only if it is less than `wordSize`. Then the stack stores exactly the values of the blocks
that lie in one of its columns, each as far down as the blocks above have rows; stacking turns lists
put together into stacks put together, and leaves a single matrix of the right width as it is. -/
theorem vstack_homomorphism (ncols : Nat) :
    (∀ blocks : List (SparseMatrix α),
      (vstack blocks ncols).nrows = word (blocks.map nrows).sum ∧
      ((vstack blocks ncols).nrows = (blocks.map nrows).sum ↔ (blocks.map nrows).sum < wordSize) ∧
      (vstack blocks ncols).ncols = ncols ∧
      (vstack blocks ncols).Canonical) ∧
    (∀ blocks : List (SparseMatrix α), (blocks.map nrows).sum < wordSize →
      ∀ row col v, (vstack blocks ncols).get? row col = some v ↔
        ∃ k b r, blocks[k]? = some b ∧ row = ((blocks.take k).map nrows).sum + r ∧
          b.get? r col = some v ∧ col < ncols) ∧
    (∀ bs cs : List (SparseMatrix α), ((bs ++ cs).map nrows).sum < wordSize →
      vstack (bs ++ cs) ncols = vstack [vstack bs ncols, vstack cs ncols] ncols) ∧
    ∀ m : SparseMatrix α, m.nrows < wordSize → m.ncols = ncols → vstack [m] ncols = m := by
  refine ⟨fun blocks => ⟨vstack_nrows _ _, ?_, vstack_ncols _ _, canonical _⟩,
    fun blocks hrows row col v => ?_, fun bs cs hrows => ?_, fun m hrows hm => ?_⟩
  · rw [vstack_nrows]
    exact ⟨fun h => h ▸ word_lt _, word_of_lt⟩
  · rw [vstack_eq_stack hrows, get?_stack]
    by_cases hcol : col < ncols
    · simp only [hcol, if_true, and_true]
      exact stackedAt_eq_some_iff
    · simp [hcol]
  · have hparts : (bs.map nrows).sum + (cs.map nrows).sum < wordSize := by
      rwa [List.map_append, List.sum_append] at hrows
    have hbs : (bs.map nrows).sum < wordSize := by omega
    have hcs : (cs.map nrows).sum < wordSize := by omega
    have hpair : ([stack bs ncols, stack cs ncols].map nrows).sum < wordSize := by
      simpa using hparts
    rw [vstack_eq_stack hrows, vstack_eq_stack hbs, vstack_eq_stack hcs, vstack_eq_stack hpair,
      stack_append]
  · rw [vstack_eq_stack (by simpa using hrows), stack_singleton hm]

/-- The second of three blocks has no rows, the first one a stored zero and the last one a third
column. -/
theorem threeBlocks_homomorphism :
    let top : SparseMatrix Int := ofTriplets 2 2 [1, 0] [0, 1] [0, 4]
    let bottom : SparseMatrix Int := ofTriplets 1 3 [0, 0] [0, 2] [5, 6]
    let blocks := [top, zeros 0 2, bottom]
    (vstack blocks 2).nrows = 3 ∧ (vstack blocks 2).Canonical ∧
      (vstack blocks 2).get? 1 0 = some 0 ∧
      (vstack blocks 2).get? 2 0 = some 5 ∧ (∀ v, (vstack blocks 2).get? 2 2 ≠ some v) ∧
      vstack blocks 2 = vstack [vstack [top] 2, vstack [zeros 0 2, bottom] 2] 2 ∧
      vstack [top] 2 = top := by
  intro top bottom blocks
  obtain ⟨hshape, hstores, happend, hsingle⟩ := vstack_homomorphism (α := Int) 2
  obtain ⟨-, hrows, -, hcanonical⟩ := hshape blocks
  have hget := hstores blocks (by decide)
  refine ⟨hrows.2 (by decide), hcanonical, ?_, ?_, ?_,
    happend [top] [zeros 0 2, bottom] (by decide), hsingle top (by decide) rfl⟩
  · exact (hget 1 0 0).2 ⟨0, top, 1, rfl, rfl, by decide, by decide⟩
  · exact (hget 2 0 5).2 ⟨2, bottom, 0, rfl, rfl, by decide, by decide⟩
  · intro v hv
    obtain ⟨_, _, _, _, _, _, hcol⟩ := (hget 2 2 v).1 hv
    exact absurd hcol (by decide)

/-- One row more than a word counts: the stack of a matrix of `wordSize - 1` rows and a single entry
has no rows, and the entry is lost. -/
theorem longStack_loses :
    let above : SparseMatrix Int := zeros (wordSize - 1) 1
    let below : SparseMatrix Int := ofTriplets 1 1 [0] [0] [5]
    (vstack [above, below] 1).nrows = 0 ∧ below.get? 0 0 = some 5 ∧
      (vstack [above, below] 1).get? (above.nrows + 0) 0 = none ∧
      (vstack [above, below] 1).entries = [] := by
  decide

/-! ## Picked rows -/

theorem selectRows?_eq_some {m : SparseMatrix α} {rows : List Nat}
    (h : ∀ row ∈ rows, row < m.nrows) :
    m.selectRows? rows = some (m.selectRows rows) :=
  if_pos (List.all_eq_true.2 fun row hrow => decide_eq_true (h row hrow))

theorem get?_selectRows_of_lt (m : SparseMatrix α) {rows : List Nat} {i : Nat} (h : i < rows.length)
    (col : Nat) : (m.selectRows rows).get? i col = m.get? rows[i] col := by
  rw [get?_selectRows, List.getElem?_eq_getElem h]
  rfl

/-- Rows picked from picked rows are rows of the matrix, those named at the places picked last. -/
theorem selectRows_selectRows (m : SparseMatrix α) (rows : List Nat) {places : List Nat}
    (h : ∀ i ∈ places, i < rows.length) :
    (m.selectRows rows).selectRows places = m.selectRows (places.pmap (fun i hi => rows[i]) h) := by
  refine ext_get?_of_lt (by simp) rfl fun row hrow col _ => ?_
  rw [selectRows_nrows] at hrow
  have hplace : places[row] < rows.length := h _ (List.getElem_mem hrow)
  rw [get?_selectRows_of_lt _ hrow, get?_selectRows_of_lt m hplace,
    get?_selectRows_of_lt m (by simpa using hrow), List.getElem_pmap]

theorem selectRows_range (m : SparseMatrix α) : m.selectRows (List.range m.nrows) = m := by
  refine ext_get?_of_lt (by simp) rfl fun row hrow col _ => ?_
  rw [selectRows_nrows] at hrow
  rw [get?_selectRows_of_lt m hrow, List.getElem_range]

/-! ## Moved rows -/

theorem scatterRows?_eq_some {m : SparseMatrix α} {dest : List Nat} (h : m.nrows ≤ dest.length)
    (nrows : Nat) : m.scatterRows? dest nrows = some (m.scatterRows dest nrows) := by
  refine if_pos (List.all_eq_true.2 fun e he => decide_eq_true ?_)
  exact Nat.lt_of_lt_of_le (lt_of_mem_entries he).1 h

/-- Rows moved to different places are picked up there. -/
theorem selectRows_scatterRows {m : SparseMatrix α} {dest : List Nat} {nrows : Nat}
    (hd : dest.Nodup) (hlength : dest.length = m.nrows) (hn : ∀ row ∈ dest, row < nrows) :
    (m.scatterRows dest nrows).selectRows dest = m := by
  refine ext_get?_of_lt (by simpa using hlength) rfl fun row hrow col _ => ?_
  rw [selectRows_nrows] at hrow
  rw [get?_selectRows_of_lt _ hrow]
  exact get?_scatterRows_dest m hd hrow (hn _ (List.getElem_mem hrow)) col

/-- What picking and moving rows do to a matrix. Picking rows that are there succeeds, and row `i`
of the result is the row named at place `i`; picking from it once more is picking the rows named at
the places picked; picking all rows in their order changes nothing. Moving each row to a place of
its own succeeds, leaves nothing on the other rows, and picking those places returns the matrix. -/
theorem selectRows_scatterRows_laws (m : SparseMatrix α) :
    (∀ rows : List Nat, (∀ row ∈ rows, row < m.nrows) → ∃ s, m.selectRows? rows = some s ∧
      s.nrows = rows.length ∧ s.ncols = m.ncols ∧ s.Canonical ∧
      (∀ i (h : i < rows.length) col, s.get? i col = m.get? rows[i] col) ∧
      ∀ (places : List Nat) (h : ∀ i ∈ places, i < rows.length),
        ∃ t, s.selectRows? places = some t ∧
        m.selectRows? (places.pmap (fun i hi => rows[i]) h) = some t) ∧
    m.selectRows? (List.range m.nrows) = some m ∧
    ∀ (dest : List Nat) (nrows : Nat), dest.Nodup → dest.length = m.nrows →
      (∀ row ∈ dest, row < nrows) →
      ∃ s, m.scatterRows? dest nrows = some s ∧ s.nrows = nrows ∧ s.ncols = m.ncols ∧ s.Canonical ∧
        s.selectRows? dest = some m ∧ ∀ row, row ∉ dest → ∀ col, s.get? row col = none := by
  refine ⟨fun rows hrows => ⟨m.selectRows rows, selectRows?_eq_some hrows, selectRows_nrows _ _,
    selectRows_ncols _ _, canonical _, fun i hi col => ?_, fun places hplaces => ?_⟩, ?_,
    fun dest nrows hd hlength hn => ⟨m.scatterRows dest nrows, scatterRows?_eq_some (by omega) _,
      scatterRows_nrows _ _ _, scatterRows_ncols _ _ _, canonical _, ?_, fun row hrow col => ?_⟩⟩
  · exact get?_selectRows_of_lt m hi col
  · have hpicked : ∀ row ∈ places.pmap (fun i hi => rows[i]) hplaces, row < m.nrows := by
      intro row hrow
      obtain ⟨i, hi, rfl⟩ := List.mem_pmap.1 hrow
      exact hrows _ (List.getElem_mem _)
    refine ⟨(m.selectRows rows).selectRows places, selectRows?_eq_some ?_, ?_⟩
    · simpa using hplaces
    · rw [selectRows?_eq_some hpicked, selectRows_selectRows m rows hplaces]
  · rw [selectRows?_eq_some fun row hrow => List.mem_range.1 hrow, selectRows_range]
  · rw [selectRows?_eq_some (by simpa using hn), selectRows_scatterRows hd hlength hn]
  · exact get?_scatterRows_of_notMem m hrow nrows col

/-- A matrix with a stored zero. One row is left out and one comes twice; the places that the rows
are moved to are not those that they come from. -/
theorem threeRows_laws :
    let m : SparseMatrix Int := ofTriplets 3 2 [0, 1, 2, 1] [0, 0, 1, 1] [4, 0, 7, 5]
    (∃ s, m.selectRows? [2, 1, 2] = some s ∧ s.get? 0 1 = some 7 ∧ s.get? 1 0 = some 0 ∧
      s.get? 2 0 = none ∧ ∃ t, s.selectRows? [1, 1, 0, 2] = some t ∧
        m.selectRows? [1, 1, 2, 2] = some t) ∧
    m.selectRows? [0, 1, 2] = some m ∧
    ∃ s, m.scatterRows? [3, 0, 1] 5 = some s ∧ s.selectRows? [3, 0, 1] = some m ∧
      s.get? 2 0 = none := by
  intro m
  obtain ⟨hselect, hall, hscatter⟩ := selectRows_scatterRows_laws m
  obtain ⟨s, hs, -, -, -, hget, hplaces⟩ := hselect [2, 1, 2] (by decide)
  obtain ⟨d, hd, -, -, -, hback, hnone⟩ := hscatter [3, 0, 1] 5 (by decide) rfl (by decide)
  refine ⟨⟨s, hs, ?_, ?_, ?_, hplaces [1, 1, 0, 2] (by decide)⟩, hall, d, hd, hback,
    hnone 2 (by decide) 0⟩
  · exact (hget 0 (by decide) 1).trans (by decide)
  · exact (hget 1 (by decide) 0).trans (by decide)
  · exact (hget 2 (by decide) 0).trans (by decide)

end SparseMatrix

end Conic
