import Conic.DenseVector
import Mathlib.Algebra.BigOperators.Intervals
import Mathlib.Algebra.BigOperators.Ring.Finset
import Mathlib.Tactic.Ring

/-!
# Vectors over exact scalars

Differences and inner products of vectors, and how they are computed piece by piece when the vectors
are put together from pieces of matching lengths. Vectors given row by row, as
`(List.range n).map f`, are cut into such pieces by `map_range_mul`.
-/

namespace Conic

/-! ## Vectors given row by row -/

/-- A vector of `m * k` entries is `m` runs of `k` entries. -/
theorem map_range_mul {β : Type} (m k : Nat) (f : Nat → β) :
    (List.range (m * k)).map f =
      (List.range m).flatMap fun j => (List.range k).map fun r => f (j * k + r) := by
  induction m with
  | zero => simp
  | succ m ih =>
    rw [Nat.succ_mul, List.range_add, List.map_append, ih, List.range_succ, List.flatMap_append]
    simp [Function.comp_def]

theorem map_range_succ {β : Type} (k : Nat) (f : Nat → β) :
    (List.range (k + 1)).map f = f 0 :: (List.range k).map fun r => f (r + 1) := by
  rw [List.range_succ_eq_map, List.map_cons, List.map_map]
  rfl

theorem sum_flatMap {β : Type} (xs : List β) (f : β → List Nat) :
    (xs.flatMap f).sum = (xs.map fun x => (f x).sum).sum := by
  induction xs with
  | nil => rfl
  | cons x xs ih => rw [List.flatMap_cons, List.sum_append, List.map_cons, List.sum_cons, ih]

/-- What comes before element `k` and the element itself are part of the whole. -/
theorem sum_take_add_le {β : Type} {xs : List β} {k : Nat} (hk : k < xs.length) (f : β → Nat) :
    ((xs.take k).map f).sum + f xs[k] ≤ (xs.map f).sum := by
  have hsplit : xs.map f = (xs.take k).map f ++ f xs[k] :: (xs.drop (k + 1)).map f := by
    rw [← List.map_cons, List.getElem_cons_drop, ← List.map_append, List.take_append_drop]
  rw [hsplit, List.sum_append, List.sum_cons]
  omega

/-- Entry `i` of piece `k` comes `i` entries after the pieces before. -/
theorem getElem?_flatten_piece {β : Type} {ls : List (List β)} {k : Nat} (hk : k < ls.length)
    {i : Nat} (hi : i < ls[k].length) :
    ls.flatten[((ls.take k).map List.length).sum + i]? = ls[k][i]? := by
  induction ls generalizing k with
  | nil => cases hk
  | cons l ls ih =>
    cases k with
    | zero =>
      simp only [List.getElem_cons_zero] at hi
      simp only [List.take_zero, List.map_nil, List.sum_nil, Nat.zero_add, List.flatten_cons,
        List.getElem_cons_zero]
      exact List.getElem?_append_left hi
    | succ k =>
      simp only [List.take_succ_cons, List.map_cons, List.sum_cons, List.flatten_cons,
        List.getElem_cons_succ]
      rw [Nat.add_assoc, List.getElem?_append_right (Nat.le_add_right ..), Nat.add_sub_cancel_left]
      exact ih _ hi

namespace DenseVector

variable {α : Type}

theorem entry_eq [Zero α] (v : DenseVector α) (i : Nat) : v.entry i = v[i]?.getD 0 :=
  List.getD_eq_getElem?_getD ..

theorem entry_of_lt [Zero α] {v : DenseVector α} {i : Nat} (h : i < v.length) :
    v.entry i = v[i] := by
  rw [entry_eq, List.getElem?_eq_getElem h]
  rfl

theorem some_entry [Zero α] {v : DenseVector α} {i : Nat} (h : i < v.length) :
    some (v.entry i) = v[i]? := by
  rw [entry_of_lt h, List.getElem?_eq_getElem h]

theorem entry_map_range [Zero α] {n i : Nat} (f : Nat → α) (h : i < n) :
    entry ((List.range n).map f) i = f i := by
  rw [entry_eq, List.getElem?_map, List.getElem?_range h]
  rfl

theorem entry_map {β : Type} [Zero α] [Zero β] (f : α → β) {v : DenseVector α} {i : Nat}
    (h : i < v.length) : DenseVector.entry (v.map f) i = f (v.entry i) := by
  rw [entry_of_lt (by simpa using h), List.getElem_map, entry_of_lt h]

theorem entry_add_of_lt [Zero α] [Add α] {v w : DenseVector α} {i : Nat} (hv : i < v.length)
    (hw : i < w.length) : (v.add w).entry i = v.entry i + w.entry i := by
  rw [entry_of_lt hv, entry_of_lt hw, entry_of_lt (by simp [add, hv, hw])]
  exact List.getElem_zipWith

/-- A vector is the list of its entries. -/
theorem map_entry_range [Zero α] (v : DenseVector α) : (List.range v.length).map v.entry = v := by
  refine List.ext_getElem (by simp) fun i _ hi => ?_
  rw [List.getElem_map, List.getElem_range, entry_of_lt hi]

/-- A vector of `3 * n` entries is a list of triples. -/
theorem eq_flatMap_triples [Zero α] {v : DenseVector α} {n : Nat} (h : v.length = 3 * n) :
    v = (List.range n).flatMap fun j =>
      [v.entry (3 * j), v.entry (3 * j + 1), v.entry (3 * j + 2)] := by
  have hentries := map_entry_range v
  rw [h, Nat.mul_comm 3 n, map_range_mul] at hentries
  rw [← hentries]
  refine List.flatMap_congr fun j _ => ?_
  rw [hentries, Nat.mul_comm 3 j]
  rfl

/-! ## Writing entries -/

/-- What writing leaves behind: the places must exist, what is not written stays, and a place
written once holds what was written. -/
theorem writeAll?_eq_some {v w : DenseVector α} {writes : List (Nat × α)}
    (h : v.writeAll? writes = some w) :
    w.length = v.length ∧ (∀ i, i ∉ writes.map Prod.fst → w[i]? = v[i]?) ∧
      ((writes.map Prod.fst).Nodup → ∀ x ∈ writes, w[x.1]? = some x.2) := by
  induction writes generalizing v with
  | nil =>
    cases h
    exact ⟨rfl, fun _ _ => rfl, fun _ x hx => absurd hx List.not_mem_nil⟩
  | cons x xs ih =>
    rw [writeAll?, List.foldlM_cons] at h
    obtain ⟨u, hu, h⟩ := Option.bind_eq_some_iff.1 h
    obtain ⟨hlen, hkeep, hnew⟩ := ih h
    rw [replace?] at hu
    split at hu
    case isFalse => cases hu
    case isTrue hx =>
      cases hu
      refine ⟨by rw [hlen, List.length_set], ?_, ?_⟩
      · intro i hi
        rw [List.map_cons, List.mem_cons, not_or] at hi
        rw [hkeep i hi.2, List.getElem?_set_ne (Ne.symm hi.1)]
      · intro hnd y hy
        rw [List.map_cons, List.nodup_cons] at hnd
        rcases List.mem_cons.1 hy with rfl | hy
        · -- written first, and not again
          rw [hkeep _ hnd.1, List.getElem?_set_self hx]
        · exact hnew hnd.2 y hy

theorem exists_writeAll? {v : DenseVector α} {writes : List (Nat × α)}
    (h : ∀ x ∈ writes, x.1 < v.length) : ∃ w, v.writeAll? writes = some w := by
  induction writes generalizing v with
  | nil => exact ⟨v, rfl⟩
  | cons x xs ih =>
    have hx : v.replace? x.1 x.2 = some (v.set x.1 x.2) := by
      rw [replace?, if_pos (h x (by simp))]
    obtain ⟨w, hw⟩ := ih (v := v.set x.1 x.2) fun y hy => by
      rw [List.length_set]
      exact h y (by simp [hy])
    refine ⟨w, ?_⟩
    rw [writeAll?, List.foldlM_cons, hx]
    exact hw

/-! ## Differences and inner products -/

variable [CommRing α]

/-- Entrywise difference of two vectors of one length. -/
def sub (v w : DenseVector α) : DenseVector α := List.zipWith (· - ·) v w

theorem entry_sub {v w : DenseVector α} (h : v.length = w.length) (i : Nat) :
    (v.sub w).entry i = v.entry i - w.entry i := by
  rw [entry_eq, entry_eq, entry_eq, sub, List.getElem?_zipWith]
  by_cases hi : i < v.length
  · rw [List.getElem?_eq_getElem hi, List.getElem?_eq_getElem (h ▸ hi)]
    rfl
  · rw [List.getElem?_eq_none (by omega), List.getElem?_eq_none (by omega)]
    exact (sub_zero 0).symm

theorem entry_add {v w : DenseVector α} (h : v.length = w.length) (i : Nat) :
    (v.add w).entry i = v.entry i + w.entry i := by
  by_cases hi : i < v.length
  · exact entry_add_of_lt hi (h ▸ hi)
  · rw [entry_eq, entry_eq, entry_eq, add, List.getElem?_zipWith, List.getElem?_eq_none (by omega),
      List.getElem?_eq_none (by omega)]
    exact (add_zero 0).symm

theorem sub_append {v w : DenseVector α} (h : v.length = w.length) (v' w' : DenseVector α) :
    sub (v ++ v') (w ++ w') = v.sub w ++ v'.sub w' := List.zipWith_append h

theorem forall_mem_sub_eq_zero {v w : DenseVector α} (h : v.length = w.length) :
    (∀ a ∈ v.sub w, a = 0) ↔ v = w := by
  induction v generalizing w with
  | nil =>
    cases w with
    | nil => simp [sub]
    | cons b w => simp at h
  | cons a v ih =>
    cases w with
    | nil => simp at h
    | cons b w =>
      have ih := ih (w := w) (by simpa using h)
      simp only [sub, List.zipWith_cons_cons, List.forall_mem_cons, List.cons.injEq] at ih ⊢
      rw [ih, sub_eq_zero]

/-- One at the place `i`, zero elsewhere. -/
def unit (n i : Nat) : DenseVector α := (List.range n).map fun j => if j = i then 1 else 0

/-- The inner product of two vectors of one length. -/
def dot (v w : DenseVector α) : α := (List.zipWith (· * ·) v w).sum

@[simp] theorem dot_nil_left (w : DenseVector α) : dot [] w = 0 := rfl

@[simp] theorem dot_nil_right (v : DenseVector α) : dot v [] = 0 := by
  cases v <;> rfl

@[simp] theorem dot_cons (a b : α) (v w : DenseVector α) :
    dot (a :: v) (b :: w) = a * b + dot v w := by
  simp [dot]

theorem dot_append {v v' : DenseVector α} (h : v.length = v'.length) (w w' : DenseVector α) :
    dot (v ++ w) (v' ++ w') = dot v v' + dot w w' := by
  simp [dot, List.zipWith_append h]

theorem dot_neg_right (v w : DenseVector α) : dot v w.neg = - dot v w := by
  induction v generalizing w with
  | nil => simp
  | cons a v ih =>
    cases w with
    | nil => simp [neg]
    | cons b w =>
      have := ih w
      simp only [neg, List.map_cons, dot_cons] at this ⊢
      rw [this]
      ring

theorem dot_sub_comm (v w w' : DenseVector α) : dot v (w.sub w') = - dot v (w'.sub w) := by
  induction v generalizing w w' with
  | nil => simp
  | cons a v ih =>
    cases w with
    | nil => cases w' <;> simp [sub]
    | cons b w =>
      cases w' with
      | nil => simp [sub]
      | cons b' w' =>
        have := ih w w'
        simp only [sub, List.zipWith_cons_cons, dot_cons] at this ⊢
        rw [this]
        ring

theorem dot_zeros (n : Nat) (w : DenseVector α) : dot (zeros n) w = 0 := by
  induction n generalizing w with
  | zero => rfl
  | succ n ih =>
    cases w with
    | nil => rfl
    | cons b w =>
      show dot (0 :: zeros n) (b :: w) = 0
      rw [dot_cons, ih, zero_mul, add_zero]

/-- Adding to one entry of a vector. -/
theorem dot_modify {v : DenseVector α} {j : Nat} (hj : j < v.length) (a : α) (w : DenseVector α) :
    dot (v.modify j (· + a)) w = dot v w + a * w.entry j := by
  induction v generalizing j w with
  | nil => simp at hj
  | cons b v ih =>
    cases w with
    | nil => simp [entry]
    | cons c w =>
      cases j with
      | zero =>
        show dot ((b + a) :: v) (c :: w) = dot (b :: v) (c :: w) + a * c
        rw [dot_cons, dot_cons]
        ring
      | succ j =>
        have hj : j < v.length := by simpa using hj
        show dot (b :: v.modify j (· + a)) (c :: w) = dot (b :: v) (c :: w) + a * entry w j
        rw [dot_cons, dot_cons, ih hj, add_assoc]

/-- The inner product as a sum over indices; entries past the end count as zero. -/
theorem dot_eq_sum {v w : DenseVector α} {n : Nat} (h : v.length ≤ n) :
    dot v w = ∑ i ∈ Finset.range n, v.entry i * w.entry i := by
  induction v generalizing w n with
  | nil => simp [entry]
  | cons a v ih =>
    cases n with
    | zero => simp at h
    | succ n =>
      simp only [List.length_cons, Nat.add_le_add_iff_right] at h
      rw [Finset.sum_range_succ']
      cases w with
      | nil => simp [entry]
      | cons b w =>
        rw [dot_cons, ih h, add_comm]
        rfl

/-- Pieces of matching lengths are multiplied piece by piece. -/
theorem dot_flatMap_range {n : Nat} {f g : Nat → DenseVector α}
    (h : ∀ j < n, (f j).length = (g j).length) :
    dot ((List.range n).flatMap f) ((List.range n).flatMap g) =
      ∑ j ∈ Finset.range n, dot (f j) (g j) := by
  induction n with
  | zero => rfl
  | succ n ih =>
    have hn : ∀ j < n, (f j).length = (g j).length := fun j hj => h j (by omega)
    have hlen : ((List.range n).flatMap f).length = ((List.range n).flatMap g).length := by
      rw [List.length_flatMap, List.length_flatMap]
      congr 1
      exact List.map_congr_left fun j hj => hn j (List.mem_range.1 hj)
    simp only [List.range_succ, List.flatMap_append, List.flatMap_singleton]
    rw [dot_append hlen, ih hn, Finset.sum_range_succ]

theorem dot_map_range (n : Nat) (f g : Nat → α) :
    dot ((List.range n).map f) ((List.range n).map g) = ∑ i ∈ Finset.range n, f i * g i := by
  have hlen : ∀ j < n, List.length [f j] = List.length [g j] := fun _ _ => rfl
  rw [List.map_eq_flatMap, List.map_eq_flatMap, dot_flatMap_range hlen]
  simp

end DenseVector

end Conic
