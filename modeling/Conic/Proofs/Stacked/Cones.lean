import Conic.Proofs.Cones
import Conic.Proofs.Stacked.RowOrder
import Mathlib.Algebra.Order.Ring.Basic

/-!
# The cones of the stack

The cones of the stack hold a vector in the order of the stack exactly when the cones of the program
hold it in the order of the program (`inProduct_stackedCones`). That empty cones are left out, and
that a second-order cone of one row is passed on as a nonnegative row, makes no difference.
-/

namespace Conic

variable {α : Type} [CommRing α] [LinearOrder α]

section Parts

variable {member : Cone → DenseVector α → Prop} {exp : α → α → α → Prop}

/-- The exchange of second and third rows is that of second and third arguments. -/
theorem inProduct_swapTriples
    (hmember : ∀ s, member .exponential s ↔ Cone.exponential.Contains exp s)
    {n : Nat} {s : DenseVector α} (hs : s.length = 3 * n) :
    InProduct member (List.replicate n .exponential) (swapTriples s) ↔
      InProduct (Cone.Contains fun a b c => exp a c b) (List.replicate n .exponential) s := by
  rw [DenseVector.eq_flatMap_triples hs, swapTriples_flatMap, inProduct_replicate fun _ _ => rfl,
    inProduct_replicate fun _ _ => rfl]
  exact forall₂_congr fun j _ => hmember _

omit [CommRing α] [LinearOrder α] in
theorem sum_stackedSecondOrder (k : Nat) : ((stackedSecondOrder k).map Cone.rows).sum = k := by
  match k with
  | 0 => rfl
  | 1 => rfl
  | k + 2 => rfl

omit [CommRing α] [LinearOrder α] in
theorem sum_flatMap_stackedSecondOrder (sizes : List Nat) :
    ((sizes.flatMap stackedSecondOrder).map Cone.rows).sum = sizes.sum := by
  rw [List.map_flatMap, sum_flatMap, List.map_congr_left fun k _ => sum_stackedSecondOrder k]
  exact congrArg List.sum (List.map_id _)

/-- A second-order cone without rows may be left out, and one of a single row is a nonnegative
row. -/
theorem inProduct_stackedSecondOrder [IsStrictOrderedRing α]
    (hmember : ∀ c s, (∀ n, c ≠ .zero n) → (member c s ↔ c.Contains exp s)) {k : Nat}
    {s : DenseVector α} (hs : s.length = k) :
    InProduct member (stackedSecondOrder k) s ↔ InLorentz s := by
  match k, hs with
  | 0, hs =>
    obtain rfl : s = [] := List.length_eq_zero_iff.1 hs
    exact ⟨fun _ => trivial, fun _ => rfl⟩
  | 1, hs =>
    obtain ⟨a, rfl⟩ := List.length_eq_one_iff.1 hs
    rw [stackedSecondOrder, inProduct_singleton, hmember _ _ fun n h => by cases h]
    show _ ∧ (∀ b ∈ [a], 0 ≤ b) ↔ 0 ≤ a ∧ 0 ≤ a ^ 2
    simp [Cone.rows, sq_nonneg]
  | k + 2, hs =>
    show InProduct member [.secondOrder (k + 2)] s ↔ _
    rw [inProduct_singleton, hmember _ _ fun n h => by cases h]
    exact and_iff_right hs

theorem inProduct_flatMap_stackedSecondOrder [IsStrictOrderedRing α]
    (hmember : ∀ c s, (∀ n, c ≠ .zero n) → (member c s ↔ c.Contains exp s))
    (exp' : α → α → α → Prop) {sizes : List Nat} {s : DenseVector α} (hs : s.length = sizes.sum) :
    InProduct member (sizes.flatMap stackedSecondOrder) s ↔
      InProduct (Cone.Contains exp') (sizes.map .secondOrder) s := by
  induction sizes generalizing s with
  | nil => exact Iff.rfl
  | cons k sizes ih =>
    rw [List.sum_cons] at hs
    have htake : (s.take k).length = k := by
      rw [List.length_take]
      omega
    have hrest := ih (s := s.drop k) (by rw [List.length_drop]; omega)
    have hrows := htake.trans (sum_stackedSecondOrder k).symm
    rw [List.flatMap_cons, List.map_cons, InProduct]
    conv_lhs => rw [← List.take_append_drop k s]
    rw [inProduct_append hrows, inProduct_stackedSecondOrder hmember htake, hrest]
    exact (and_iff_right (show k ≤ s.length by omega)).symm

omit [CommRing α] [LinearOrder α] in
/-- A run of rows has its cone left out when there are none. -/
theorem inProduct_run {cone : Nat → Cone} {n : Nat} {s : DenseVector α} (hrows : (cone n).rows = n)
    (hs : s.length = n) (hempty : s = [] → member (cone n) s) :
    InProduct member (if n > 0 then [cone n] else []) s ↔ member (cone n) s := by
  split
  · rw [inProduct_singleton, hrows]
    exact and_iff_right hs
  · have hnil : s = [] := List.length_eq_zero_iff.1 (by omega)
    exact ⟨fun _ => hempty hnil, fun _ => hnil⟩

theorem sum_rows_run {cone : Nat → Cone} {n : Nat} (hrows : (cone n).rows = n) :
    ((if n > 0 then [cone n] else []).map Cone.rows).sum = n := by
  split
  · exact hrows
  · simp only [List.map_nil, List.sum_nil]
    omega

omit [CommRing α] [LinearOrder α] in
/-- The cones of the stack share out all of its rows. -/
theorem sum_rows_stackedCones (equalities : Nat) (d : ConeDims) :
    ((stackedCones equalities d).map Cone.rows).sum = equalities + d.rows := by
  rw [stackedCones, List.map_append, List.map_append, List.map_append, List.sum_append,
    List.sum_append,
    List.sum_append, sum_rows_run rfl, sum_rows_run rfl, sum_flatMap_stackedSecondOrder,
    List.map_replicate, List.sum_replicate_nat, ConeDims.rows]
  show equalities + d.linear + d.secondOrder.sum + d.exponential * 3 = _
  omega

theorem inProduct_stackedCones_of_length [IsStrictOrderedRing α]
    (hmember : ∀ c s, (∀ n, c ≠ .zero n) → (member c s ↔ c.Contains exp s)) {n : Nat}
    {d : ConeDims} {s₀ s : DenseVector α} (h₀ : s₀.length = n) (hs : s.length = d.rows)
    (hempty : s₀ = [] → member (.zero n) s₀) :
    InProduct member (stackedCones n d)
        (swapAfter (n + d.linear + d.secondOrder.sum) (s₀ ++ s)) ↔
      member (.zero n) s₀ ∧ d.Contains exp s := by
  obtain ⟨l, u, w, rfl, hl, hu, hw⟩ := ConeDims.exists_runs hs
  have hswap : swapAfter (n + d.linear + d.secondOrder.sum) (s₀ ++ (l ++ (u ++ w))) =
      s₀ ++ (l ++ (u ++ swapTriples w)) := by
    rw [Nat.add_assoc, ← h₀, swapAfter_append, ← hl, swapAfter_append, ← hu]
    exact congrArg _ (congrArg _ (swapAfter_append u w 0))
  have hsecond : u.length = ((d.secondOrder.flatMap stackedSecondOrder).map Cone.rows).sum :=
    hu.trans (sum_flatMap_stackedSecondOrder d.secondOrder).symm
  have hlinear : member (.nonneg d.linear) l ↔ ∀ a ∈ l, 0 ≤ a :=
    hmember _ _ fun n h => by cases h
  have hnonneg : l = [] → member (.nonneg d.linear) l := by
    rintro rfl
    exact hlinear.2 fun a ha => absurd ha List.not_mem_nil
  rw [ConeDims.contains_append hl hu, hswap, stackedCones, List.append_assoc, List.append_assoc,
    inProduct_append (h₀.trans (sum_rows_run rfl).symm), inProduct_run rfl h₀ hempty,
    inProduct_append (hl.trans (sum_rows_run rfl).symm), inProduct_run rfl hl hnonneg, hlinear,
    inProduct_append hsecond,
    inProduct_flatMap_stackedSecondOrder hmember (fun a b c => exp a c b) hu,
    inProduct_swapTriples (fun s => hmember .exponential s fun n h => by cases h) hw]

/-- The cones of the stack hold what the origin and the cones of the program hold. -/
theorem inProduct_stackedCones [IsStrictOrderedRing α]
    (hmember : ∀ c s, (∀ n, c ≠ .zero n) → (member c s ↔ c.Contains exp s)) {n : Nat}
    {d : ConeDims} {s₀ s : DenseVector α} (h₀ : s₀.length = n)
    (hempty : s₀ = [] → member (.zero n) s₀) :
    InProduct member (stackedCones n d) (swapAfter (n + s.length - 3 * d.exponential) (s₀ ++ s)) ↔
      member (.zero n) s₀ ∧ d.Contains exp s := by
  by_cases hs : s.length = d.rows
  · have hfirst : n + s.length - 3 * d.exponential = n + d.linear + d.secondOrder.sum := by
      rw [hs, ConeDims.rows]
      omega
    rw [hfirst]
    exact inProduct_stackedCones_of_length hmember h₀ hs hempty
  · -- on both sides the vector has another length than the cones have rows
    refine iff_of_false (fun h => hs ?_) fun h => hs ?_
    · have hlen := h.length_eq
      rw [length_swapAfter, List.length_append, h₀, sum_rows_stackedCones] at hlen
      omega
    · exact h.2.length_eq.trans d.sum_rows_cones

end Parts

end Conic
