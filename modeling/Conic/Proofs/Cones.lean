import Conic.ConeProgram.Basic
import Conic.Proofs.DenseVector
import Conic.Stacked.Basic
import Mathlib.Algebra.Order.Ring.Defs

/-!
# Cones and their products

Membership in the cones that the rows of a program are shared out to. What an exponential cone holds
is left open, as a predicate on its three arguments. A product of cones cuts a vector from the
front, one piece for each cone (`InProduct`); a product put together from lists of cones is decided
list by list (`inProduct_append`, `inProduct_flatMap`).
-/

namespace Conic

variable {α : Type}

/-! ## Products -/

/-- The vector is cut into pieces, one for each cone and as long as it has rows, that all are
members. -/
def InProduct (member : Cone → DenseVector α → Prop) : List Cone → DenseVector α → Prop
  | [], s => s = []
  | c :: cs, s =>
    c.rows ≤ s.length ∧ member c (s.take c.rows) ∧ InProduct member cs (s.drop c.rows)

section Products

variable {member : Cone → DenseVector α → Prop}

/-- The members of a product are as long as its cones have rows. -/
theorem InProduct.length_eq {cs : List Cone} {s : DenseVector α} (h : InProduct member cs s) :
    s.length = (cs.map Cone.rows).sum := by
  induction cs generalizing s with
  | nil => exact congrArg List.length h
  | cons c cs ih =>
    obtain ⟨hle, -, hrest⟩ := h
    have hlen := ih hrest
    rw [List.length_drop] at hlen
    rw [List.map_cons, List.sum_cons]
    omega

theorem inProduct_singleton {c : Cone} {s : DenseVector α} :
    InProduct member [c] s ↔ s.length = c.rows ∧ member c s := by
  show c.rows ≤ s.length ∧ member c (s.take c.rows) ∧ s.drop c.rows = [] ↔ _
  rw [List.drop_eq_nil_iff]
  constructor
  · rintro ⟨hle, hmem, hge⟩
    rw [List.take_of_length_le hge] at hmem
    exact ⟨Nat.le_antisymm hge hle, hmem⟩
  · rintro ⟨hlen, hmem⟩
    rw [List.take_of_length_le (Nat.le_of_eq hlen)]
    exact ⟨Nat.le_of_eq hlen.symm, hmem, Nat.le_of_eq hlen⟩

/-- A product of two lists of cones is decided list by list. -/
theorem inProduct_append {cs ds : List Cone} {s t : DenseVector α}
    (hs : s.length = (cs.map Cone.rows).sum) :
    InProduct member (cs ++ ds) (s ++ t) ↔ InProduct member cs s ∧ InProduct member ds t := by
  induction cs generalizing s with
  | nil =>
    obtain rfl : s = [] := List.length_eq_zero_iff.1 hs
    exact ⟨fun h => ⟨rfl, h⟩, fun h => h.2⟩
  | cons c cs ih =>
    rw [List.map_cons, List.sum_cons] at hs
    have hle : c.rows ≤ s.length := by omega
    have hle' : c.rows ≤ (s ++ t).length := by
      rw [List.length_append]
      omega
    have hdrop : (s.drop c.rows).length = (cs.map Cone.rows).sum := by
      rw [List.length_drop]
      omega
    rw [List.cons_append, InProduct, InProduct, List.take_append_of_le_length hle,
      List.drop_append_of_le_length hle, ih hdrop]
    simp only [hle, hle', true_and, and_assoc]

theorem inProduct_flatMap {β : Type} {xs : List β} {cones : β → List Cone}
    {slack : β → DenseVector α} (h : ∀ x ∈ xs, (slack x).length = ((cones x).map Cone.rows).sum) :
    InProduct member (xs.flatMap cones) (xs.flatMap slack) ↔
      ∀ x ∈ xs, InProduct member (cones x) (slack x) := by
  induction xs with
  | nil => simp [InProduct]
  | cons x xs ih =>
    rw [List.flatMap_cons, List.flatMap_cons, inProduct_append (h x List.mem_cons_self),
      ih fun y hy => h y (List.mem_cons_of_mem _ hy), List.forall_mem_cons]

theorem inProduct_congr {member' : Cone → DenseVector α → Prop} {cs : List Cone}
    (h : ∀ c ∈ cs, ∀ s, member c s ↔ member' c s) (s : DenseVector α) :
    InProduct member cs s ↔ InProduct member' cs s := by
  induction cs generalizing s with
  | nil => exact Iff.rfl
  | cons c cs ih =>
    rw [InProduct, InProduct, h c List.mem_cons_self,
      ih fun d hd => h d (List.mem_cons_of_mem _ hd)]

/-- Equal cones, one piece after the other. -/
theorem inProduct_replicate {c : Cone} {n : Nat} {slack : Nat → DenseVector α}
    (h : ∀ j < n, (slack j).length = c.rows) :
    InProduct member (List.replicate n c) ((List.range n).flatMap slack) ↔
      ∀ j < n, member c (slack j) := by
  have hcones : List.replicate n c = (List.range n).flatMap fun _ => [c] := by
    rw [← List.map_eq_flatMap, List.map_const', List.length_range]
  rw [hcones, inProduct_flatMap fun j hj => by simpa using h j (List.mem_range.1 hj)]
  constructor
  · intro hall j hj
    exact (inProduct_singleton.1 (hall j (List.mem_range.2 hj))).2
  · intro hall j hj
    have hj := List.mem_range.1 hj
    exact inProduct_singleton.2 ⟨h j hj, hall j hj⟩

theorem replicate_sum {β γ : Type} (xs : List β) (f : β → Nat) (a : γ) :
    List.replicate (xs.map f).sum a = xs.flatMap fun x => List.replicate (f x) a := by
  induction xs with
  | nil => rfl
  | cons x xs ih =>
      rw [List.map_cons, List.sum_cons, List.flatMap_cons, ← ih, List.replicate_append_replicate]

end Products

/-! ## The cones -/

variable [CommRing α] [LinearOrder α]

/-- The sum of the squares. -/
def DenseVector.normSq (v : DenseVector α) : α := List.sum (v.map (· ^ 2))

omit [LinearOrder α] in
theorem DenseVector.normSq_map_range (n : Nat) (f : Nat → α) :
    normSq ((List.range n).map f) = ∑ i ∈ Finset.range n, f i ^ 2 := by
  induction n with
  | zero => rfl
  | succ n ih =>
    rw [Finset.sum_range_succ, ← ih, List.range_succ]
    simp [normSq]

/-- The first entry is not negative, and its square no less than the squares of the others together.
The vector without entries is the only one of its cone. -/
def InLorentz : DenseVector α → Prop
  | [] => True
  | t :: body => 0 ≤ t ∧ DenseVector.normSq body ≤ t ^ 2

/-- Membership in a cone, where `exp` tells what an exponential cone holds. -/
def Cone.Contains (exp : α → α → α → Prop) (c : Cone) (s : DenseVector α) : Prop :=
  match c with
  | zero _ => ∀ a ∈ s, a = 0
  | nonneg _ => ∀ a ∈ s, 0 ≤ a
  | secondOrder _ => InLorentz s
  | exponential =>
    match s with
    | [a, b, c] => exp a b c
    | _ => False

/-- Membership in the dual of a cone, where `exp` tells what the dual of an exponential cone holds.
The dual of the origin is everything, and the other cones are their own duals. -/
def Cone.DualContains (exp : α → α → α → Prop) (c : Cone) (z : DenseVector α) : Prop :=
  match c with
  | zero _ => True
  | c => c.Contains exp z

/-- The cones of the cone rows of a program. -/
def ConeDims.cones (d : ConeDims) : List Cone :=
  .nonneg d.linear :: (d.secondOrder.map .secondOrder ++ List.replicate d.exponential .exponential)

theorem sum_rows_secondOrder (sizes : List Nat) :
    ((sizes.map Cone.secondOrder).map Cone.rows).sum = sizes.sum := by
  rw [List.map_map]
  exact congrArg List.sum (List.map_id _)

theorem ConeDims.sum_rows_cones (d : ConeDims) : (d.cones.map Cone.rows).sum = d.rows := by
  rw [cones, List.map_cons, List.sum_cons, List.map_append, List.sum_append, sum_rows_secondOrder,
    List.map_replicate, List.sum_replicate_nat, rows]
  show d.linear + (d.secondOrder.sum + d.exponential * 3) = _
  omega

/-- The slack of the cone rows lies in their cones. The three rows of an exponential cone hold its
first, third and second argument. -/
def ConeDims.Contains (d : ConeDims) (exp : α → α → α → Prop) (s : DenseVector α) : Prop :=
  InProduct (Cone.Contains fun a b c => exp a c b) d.cones s

/-- The multipliers of the cone rows lie in the duals of their cones, in the same order of rows. -/
def ConeDims.DualContains (d : ConeDims) (exp : α → α → α → Prop) (z : DenseVector α) : Prop :=
  InProduct (Cone.DualContains fun a b c => exp a c b) d.cones z

theorem Cone.dualContains_iff {exp : α → α → α → Prop} {c : Cone} (h : ∀ n, c ≠ zero n)
    (z : DenseVector α) : c.DualContains exp z ↔ c.Contains exp z := by
  cases c with
  | zero n => exact absurd rfl (h n)
  | _ => exact Iff.rfl

theorem ConeDims.dualContains_iff (d : ConeDims) (exp : α → α → α → Prop) (z : DenseVector α) :
    d.DualContains exp z ↔ d.Contains exp z := by
  refine inProduct_congr (fun c hc z => Cone.dualContains_iff (fun n hn => ?_) z) z
  subst hn
  simp [cones] at hc

/-- A vector over all cone rows is one over each of the three runs. -/
theorem ConeDims.exists_runs {β : Type} {d : ConeDims} {s : List β} (h : s.length = d.rows) :
    ∃ l u w, s = l ++ (u ++ w) ∧ l.length = d.linear ∧ u.length = d.secondOrder.sum ∧
      w.length = 3 * d.exponential := by
  rw [ConeDims.rows] at h
  refine ⟨s.take d.linear, (s.drop d.linear).take d.secondOrder.sum,
    (s.drop d.linear).drop d.secondOrder.sum, ?_, ?_, ?_, ?_⟩
  · rw [List.take_append_drop, List.take_append_drop]
  · rw [List.length_take]
    omega
  · rw [List.length_take, List.length_drop]
    omega
  · rw [List.length_drop, List.length_drop]
    omega

/-- The three runs of rows are decided one by one. -/
theorem ConeDims.contains_append {d : ConeDims} {exp : α → α → α → Prop} {s t u : DenseVector α}
    (hs : s.length = d.linear) (ht : t.length = d.secondOrder.sum) :
    d.Contains exp (s ++ (t ++ u)) ↔ (∀ a ∈ s, 0 ≤ a) ∧
      InProduct (Cone.Contains fun a b c => exp a c b) (d.secondOrder.map .secondOrder) t ∧
      InProduct (Cone.Contains fun a b c => exp a c b) (List.replicate d.exponential .exponential)
        u := by
  have hlinear : s.length = (([.nonneg d.linear] : List Cone).map Cone.rows).sum := by
    simpa [Cone.rows] using hs
  have hsecond : t.length = ((d.secondOrder.map Cone.secondOrder).map Cone.rows).sum := by
    rw [ht, sum_rows_secondOrder]
  have hcones : d.cones = [.nonneg d.linear] ++ (d.secondOrder.map .secondOrder ++
      List.replicate d.exponential .exponential) := rfl
  rw [Contains, hcones, inProduct_append hlinear, inProduct_append hsecond,
    inProduct_singleton]
  exact and_congr_left fun _ => and_iff_right hs

end Conic
