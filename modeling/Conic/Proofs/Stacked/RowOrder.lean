import Conic.Proofs.ConeProgram.ExpOrder
import Conic.Stacked.Backend

/-!
# The order of the rows in the stack

The stack takes the rows of a program in their order, except that it exchanges the second and third
row of each exponential cone (`stackedRowOrder_eq`). The exchange is its own inverse, so that
writing multipliers back to the places the rows came from exchanges them once more
(`unstackDuals_eq_ok`).

The order is computed with words that may have wrapped around. Even then the cones end at the last
row, and either all of them are there or the computation fails (`stackedRowOrder?_eq`).
-/

namespace Conic

/-! ## Exchanging triples behind a prefix -/

/-- The list with second and third entries exchanged in the triples after the first `k` entries. -/
def swapAfter {β : Type} (k : Nat) (l : List β) : List β := l.take k ++ swapTriples (l.drop k)

section Lists

variable {β : Type}

@[simp] theorem length_swapAfter (k : Nat) (l : List β) : (swapAfter k l).length = l.length := by
  rw [swapAfter, List.length_append, length_swapTriples, List.length_take, List.length_drop]
  omega

/-- A prefix that the exchange does not reach. -/
theorem swapAfter_append (s t : List β) (k : Nat) :
    swapAfter (s.length + k) (s ++ t) = s ++ swapAfter k t := by
  rw [swapAfter, swapAfter, List.take_length_add_append, List.drop_length_add_append,
    List.append_assoc]

theorem swapAfter_zero (l : List β) : swapAfter 0 l = swapTriples l := rfl

theorem swapAfter_swapAfter (k : Nat) (l : List β) : swapAfter k (swapAfter k l) = l := by
  by_cases h : k ≤ l.length
  · have htake : (l.take k).length + 0 = k := by
      rw [List.length_take]
      omega
    have hsplit := swapAfter_append (l.take k) (swapTriples (l.drop k)) 0
    rw [htake, swapAfter_zero, swapTriples_swapTriples, List.take_append_drop] at hsplit
    exact hsplit
  · -- there is nothing after the prefix
    have hshort : swapAfter k l = l := by
      rw [swapAfter, List.take_of_length_le (by omega), List.drop_of_length_le (by omega)]
      exact List.append_nil l
    rw [hshort, hshort]

theorem map_swapAfter {γ : Type} (f : β → γ) (k : Nat) (l : List β) :
    (swapAfter k l).map f = swapAfter k (l.map f) := by
  rw [swapAfter, swapAfter, List.map_append, map_swapTriples, List.map_take, List.map_drop]

/-- Behind the prefix, entries of triples change places. -/
theorem getElem?_swapAfter {k : Nat} {l : List β} (hk : k ≤ l.length) (hl : 3 ∣ l.length - k)
    (j : Nat) {i : Nat} (hi : i < 3) :
    (swapAfter k l)[k + 3 * j + i]? = l[k + 3 * j + ExpOrder.standard.rows.getD i 0]? := by
  have htake : (l.take k).length = k := by
    rw [List.length_take]
    omega
  rw [swapAfter, List.getElem?_append_right (by omega), htake, Nat.add_assoc k,
    Nat.add_sub_cancel_left, getElem?_swapTriples (by rw [List.length_drop]; exact hl) j hi,
    List.getElem?_drop, Nat.add_assoc k]

theorem swapAfter_perm (k : Nat) (l : List β) : (swapAfter k l).Perm l := by
  have h := (swapTriples_perm (l.drop k)).append_left (l.take k)
  rw [List.take_append_drop] at h
  exact h

end Lists

theorem DenseVector.dot_swapAfter {α : Type} [CommRing α] {v w : DenseVector α}
    (h : v.length = w.length) (k : Nat) : dot (swapAfter k v) w = dot v (swapAfter k w) := by
  have htake : (v.take k).length = (w.take k).length := by
    rw [List.length_take, List.length_take, h]
  have hdrop : (v.drop k).length = (w.drop k).length := by
    rw [List.length_drop, List.length_drop, h]
  calc dot (swapAfter k v) w
      = dot (swapAfter k v) (w.take k ++ w.drop k) := by rw [List.take_append_drop]
    _ = dot (v.take k) (w.take k) + dot (swapTriples (v.drop k)) (w.drop k) :=
        dot_append htake _ _
    _ = dot (v.take k) (w.take k) + dot (v.drop k) (swapTriples (w.drop k)) := by
        rw [dot_swapTriples hdrop]
    _ = dot (v.take k ++ v.drop k) (swapAfter k w) := (dot_append htake _ _).symm
    _ = dot v (swapAfter k w) := by rw [List.take_append_drop]

theorem DenseVector.sub_swapAfter {α : Type} [CommRing α] {v w : DenseVector α}
    (h : v.length = w.length) (k : Nat) :
    sub (swapAfter k v) (swapAfter k w) = swapAfter k (v.sub w) := by
  have hmap : ∀ u : DenseVector α, u.length = v.length →
      swapAfter k u = (swapAfter k (List.range v.length)).map u.entry := by
    intro u hu
    rw [map_swapAfter, ← hu, map_entry_range]
  have hlen : (v.sub w).length = v.length := by
    rw [sub, List.length_zipWith, ← h, Nat.min_self]
  rw [hmap v rfl, hmap w h.symm, hmap (v.sub w) hlen, sub, List.zipWith_map, List.zipWith_self]
  exact List.map_congr_left fun i _ => (entry_sub h i).symm

/-! ## The row order -/

theorem stackedRowOrder_eq {rows exponential : Nat} (h : 3 * exponential ≤ rows) :
    stackedRowOrder rows exponential = swapAfter (rows - 3 * exponential) (List.range rows) := by
  obtain ⟨start, rfl⟩ := Nat.exists_eq_add_of_le' h
  rw [stackedRowOrder, Nat.add_sub_cancel, Nat.mul_comm]
  have hprefix := swapAfter_append (List.range start)
    ((List.range (exponential * 3)).map (start + ·)) 0
  rw [List.length_range, Nat.add_zero, swapAfter_zero] at hprefix
  rw [List.range_add, hprefix, map_range_mul]
  congr 1
  -- triple by triple
  have hswap := swapTriples_flatMap (List.range exponential) (fun j => start + (j * 3 + 0))
    (fun j => start + (j * 3 + 1)) (fun j => start + (j * 3 + 2))
  refine Eq.trans ?_ hswap.symm
  refine List.flatMap_congr fun j _ => ?_
  show [start + 3 * j + 0, start + 3 * j + 2, start + 3 * j + 1] = _
  rw [Nat.mul_comm 3 j]
  rfl

/-! ## The row order in words -/

/-- The writes for one cone whose rows are there exchange two of them. -/
theorem writeTriple_eq (s t : List Nat) (h : s.length + 3 ≤ wordSize) :
    DenseVector.writeAll? (s ++ s.length :: (s.length + 1) :: (s.length + 2) :: t)
        (ExpOrder.standard.rows.zipIdx.map fun w =>
          (word (s.length + w.2), word (s.length + w.1))) =
      some (s ++ [s.length, s.length + 2, s.length + 1] ++ t) := by
  have hword : ∀ i < 3, word (s.length + i) = s.length + i := fun i hi => word_of_lt (by omega)
  show DenseVector.writeAll? _ [(word (s.length + 0), word (s.length + 0)),
    (word (s.length + 1), word (s.length + 2)), (word (s.length + 2), word (s.length + 1))] = _
  rw [hword 0 (by omega), hword 1 (by omega), hword 2 (by omega)]
  simp [DenseVector.writeAll?, DenseVector.replace?]

/-- Where all rows of the cones are there, they are exchanged cone by cone. -/
theorem writeTriples?_range' (s : List Nat) (count : Nat) (h : s.length + 3 * count < wordSize) :
    writeTriples? count s.length (s ++ List.range' s.length (3 * count)) =
      some (s ++ swapTriples (List.range' s.length (3 * count))) := by
  induction count generalizing s with
  | zero => rfl
  | succ count ih =>
    have hrange : List.range' s.length (3 * (count + 1)) =
        s.length :: (s.length + 1) :: (s.length + 2) :: List.range' (s.length + 3) (3 * count) := by
      rw [Nat.mul_succ, List.range'_succ, List.range'_succ, List.range'_succ]
    have hrest := ih (s ++ [s.length, s.length + 2, s.length + 1]) (by simp; omega)
    rw [List.length_append, List.append_assoc] at hrest
    rw [hrange, writeTriples?]
    simp only [writeTriple_eq s _ (by omega), Option.bind_eq_bind, Option.bind_some,
      swapTriples_cons]
    rw [word_of_lt (by omega), List.append_assoc]
    exact hrest.trans (by rw [List.append_assoc]; rfl)

/-- Cones that end at the last row, and begin before the first one, are written from one of the last
words on, where there is no row. -/
theorem writeTriples?_eq_none {count base : Nat} {order : List Nat} (hbase : base < wordSize)
    (hrows : order.length + 3 ≤ wordSize) (hend : word (base + 3 * count) = order.length)
    (hbegin : order.length < 3 * count) : writeTriples? count base order = none := by
  induction count generalizing base order with
  | zero => omega
  | succ count ih =>
    rw [writeTriples?, Option.bind_eq_bind, Option.bind_eq_none_iff]
    intro order' hwrite
    obtain ⟨hlen, -, -⟩ := DenseVector.writeAll?_eq_some hwrite
    have hend' : word (word (base + 3) + 3 * count) = order'.length := by
      rw [hlen, ← hend, Nat.add_comm (word _), word_add_word]
      congr 1
      omega
    refine ih (word_lt _) (hlen ▸ hrows) hend' ?_
    by_contra hall
    -- the cone whose first row wraps around is the one that is written now
    have hfirst : ¬ base < order.length := by
      rw [word, wordSize] at hend
      rw [wordSize] at hbase hrows
      omega
    have hnone : DenseVector.replace? order (word (base + 0)) (word (base + 0)) = none := by
      rw [DenseVector.replace?, Nat.add_zero, word_of_lt hbase, if_neg hfirst]
    have hwrite : (DenseVector.replace? order (word (base + 0)) (word (base + 0)) >>= fun order =>
        DenseVector.writeAll? order [(word (base + 1), word (base + 2)),
          (word (base + 2), word (base + 1))]) = some order' := hwrite
    rw [hnone] at hwrite
    cases hwrite

/-- The rows of an equality block and of cones, as far as a word counts them, are those of two
matrices in memory. If the exponential cones are among these rows the order is computed, and
otherwise a row is written that is not there. -/
theorem stackedRowOrder?_eq {equalities coneRows : Nat} {d : ConeDims}
    (hcones : word coneRows = d.total) (hmemory : equalities + coneRows + 3 ≤ wordSize) :
    stackedRowOrder? equalities d =
      if 3 * d.exponential ≤ equalities + coneRows then
        some (stackedRowOrder (equalities + coneRows) d.exponential)
      else none := by
  have htotal : word (equalities + d.total) = equalities + coneRows := by
    rw [← hcones, word_add_word, word_of_lt (by omega)]
  have hend : word (equalities + d.linear + d.secondOrder.sum + 3 * d.exponential) =
      equalities + coneRows := by
    rw [← htotal, ConeDims.total, word_add_word, ConeDims.rows]
    congr 1
    omega
  rw [stackedRowOrder?, htotal]
  generalize equalities + d.linear + d.secondOrder.sum = start at hend ⊢
  generalize equalities + coneRows = rows at hend hmemory ⊢
  split
  case isTrue hthere =>
    have hstart : word start = rows - 3 * d.exponential := by
      rw [word, wordSize] at hend ⊢
      rw [wordSize] at hmemory
      omega
    obtain ⟨first, rfl⟩ := Nat.exists_eq_add_of_le' hthere
    have hwritten := writeTriples?_range' (List.range first) d.exponential (by simp; omega)
    have hprefix := swapAfter_append (List.range first) (List.range' first (3 * d.exponential)) 0
    rw [List.length_range] at hwritten hprefix
    rw [Nat.add_zero, swapAfter_zero] at hprefix
    rw [stackedRowOrder_eq hthere, hstart, Nat.add_sub_cancel]
    have hrange : List.range (first + 3 * d.exponential) =
        List.range first ++ List.range' first (3 * d.exponential) := by
      rw [List.range_add, List.range'_eq_map_range]
    rw [hrange, hprefix]
    exact hwritten
  case isFalse hshort =>
    refine writeTriples?_eq_none (word_lt _) (by rwa [List.length_range]) ?_ (by simpa using hshort)
    rw [List.length_range, Nat.add_comm (word _), word_add_word, Nat.add_comm, hend]

namespace ConeProgram

variable {α : Type}

/-- The number of rows of the stack. -/
def stackRows (p : ConeProgram α) : Nat := p.a.nrows + p.g.nrows

/-- The first exponential row, equalities and cone rows taken together. -/
def firstTriple (p : ConeProgram α) : Nat := p.stackRows - 3 * p.dims.exponential

/-- There are enough rows for the exponential cones. -/
def HoldsTriples (p : ConeProgram α) : Prop := 3 * p.dims.exponential ≤ p.stackRows

namespace HoldsTriples

variable {p : ConeProgram α} (hp : p.HoldsTriples)

include hp

theorem rowOrder_eq : p.rowOrder = swapAfter p.firstTriple (List.range p.stackRows) :=
  stackedRowOrder_eq hp

theorem rowOrder_perm : p.rowOrder.Perm (List.range p.stackRows) := by
  rw [hp.rowOrder_eq]
  exact swapAfter_perm ..

theorem length_rowOrder : p.rowOrder.length = p.stackRows := by
  rw [hp.rowOrder_perm.length_eq, List.length_range]

theorem lt_of_mem_rowOrder {row : Nat} (h : row ∈ p.rowOrder) : row < p.stackRows :=
  List.mem_range.1 (hp.rowOrder_perm.mem_iff.1 h)

theorem nodup_rowOrder : p.rowOrder.Nodup := hp.rowOrder_perm.nodup_iff.2 List.nodup_range

/-- Argument `i` of exponential cone `m` stands in the stack on row `i` of the cone, and comes from
the row that the standard order gives it. -/
theorem getElem?_rowOrder (m : Nat) {i : Nat} (hi : i < 3)
    (hinside : p.firstTriple + 3 * m + 2 < p.stackRows) :
    p.rowOrder[p.firstTriple + 3 * m + i]? =
      some (p.firstTriple + 3 * m + ExpOrder.standard.rows.getD i 0) := by
  have htriples : p.stackRows - p.firstTriple = 3 * p.dims.exponential := by
    rw [HoldsTriples] at hp
    rw [firstTriple]
    omega
  have hargument := ExpOrder.standard_rows_lt hi
  rw [hp.rowOrder_eq, getElem?_swapAfter (by rw [List.length_range]; omega)
    (by rw [List.length_range, htriples]; exact Nat.dvd_mul_right ..) m hi,
    List.getElem?_range (by omega)]

/-- Picking the rows of the stack from a vector over all rows. -/
theorem map_rowOrder {β : Type} [Zero β] {v : DenseVector β} (h : v.length = p.stackRows) :
    p.rowOrder.map v.entry = swapAfter p.firstTriple v := by
  rw [hp.rowOrder_eq, map_swapAfter, ← h, DenseVector.map_entry_range]

/-- The multipliers of the stack go back to the rows they belong to. -/
theorem unstackDuals_eq_ok [Zero α] {z : DenseVector α} (h : z.length = p.stackRows) :
    p.unstackDuals z = .ok ((swapAfter p.firstTriple z).splitAt p.a.nrows) := by
  have hlen : p.rowOrder.length ≤ z.length := by rw [hp.length_rowOrder, h]
  have hinside : ∀ w ∈ p.rowOrder.zip z, w.1 <
      List.length (DenseVector.zeros p.rowOrder.length : DenseVector α) := by
    intro w hw
    rw [DenseVector.zeros, List.length_replicate, hp.length_rowOrder]
    exact hp.lt_of_mem_rowOrder (List.of_mem_zip hw).1
  obtain ⟨rows, hrows⟩ := DenseVector.exists_writeAll? hinside
  obtain ⟨hrowsLen, _, hwritten⟩ := DenseVector.writeAll?_eq_some hrows
  rw [List.map_fst_zip hlen] at hwritten
  have hrowsLen : rows.length = p.stackRows := by
    rw [hrowsLen, DenseVector.zeros, List.length_replicate, hp.length_rowOrder]
  -- what is read off in the order of the stack is what was written
  have hread : p.rowOrder.map (DenseVector.entry rows) = z := by
    refine List.ext_getElem (by rw [List.length_map, hp.length_rowOrder, h]) fun i hi hz => ?_
    have hi : i < p.rowOrder.length := by simpa using hi
    have hmem : (p.rowOrder[i], z[i]) ∈ p.rowOrder.zip z :=
      List.mem_iff_getElem.2 ⟨i, by simp [hi, hz], by simp⟩
    rw [List.getElem_map, DenseVector.entry_eq, hwritten hp.nodup_rowOrder _ hmem]
    rfl
  have hback : rows = swapAfter p.firstTriple z := by
    rw [← hread, hp.map_rowOrder hrowsLen, swapAfter_swapAfter]
  rw [unstackDuals, hrows, hback]

end HoldsTriples

end ConeProgram

end Conic
