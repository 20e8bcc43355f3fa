import Conic.ConeProgram.ExpOrder
import Conic.Proofs.DenseVector

/-!
# Exchanging second and third entries

The standard order of exponential rows exchanges the second and third entry of each triple. This is
its own inverse, and moves from one side of an inner product to the other.
-/

namespace Conic

/-- The list with the second and third entry of each full triple exchanged. -/
def swapTriples {β : Type} : List β → List β
  | a :: b :: c :: rest => a :: c :: b :: swapTriples rest
  | rest => rest

section Lists

variable {β : Type}

@[simp] theorem swapTriples_nil : swapTriples ([] : List β) = [] := rfl

@[simp] theorem swapTriples_cons (a b c : β) (l : List β) :
    swapTriples (a :: b :: c :: l) = a :: c :: b :: swapTriples l := rfl

@[simp] theorem length_swapTriples (l : List β) : (swapTriples l).length = l.length := by
  induction l using swapTriples.induct with
  | case1 a b c rest ih => simp [ih]
  | case2 l h =>
    rw [swapTriples]
    exact h

theorem swapTriples_swapTriples (l : List β) : swapTriples (swapTriples l) = l := by
  induction l using swapTriples.induct with
  | case1 a b c rest ih => simp [ih]
  | case2 l h => rw [swapTriples.eq_2 l h, swapTriples.eq_2 l h]

theorem swapTriples_flatMap {γ : Type} (l : List γ) (a b c : γ → β) :
    swapTriples (l.flatMap fun j => [a j, b j, c j]) = l.flatMap fun j => [a j, c j, b j] := by
  induction l with
  | nil => rfl
  | cons j l ih =>
    simp only [List.flatMap_cons, List.cons_append, List.nil_append, swapTriples_cons, ih]

theorem map_swapTriples {γ : Type} (f : β → γ) (l : List β) :
    (swapTriples l).map f = swapTriples (l.map f) := by
  induction l using swapTriples.induct with
  | case1 a b c rest ih => simp [ih]
  | case2 l h =>
    match l, h with
    | [], _ => rfl
    | [_], _ => rfl
    | [_, _], _ => rfl
    | a :: b :: c :: rest, h => exact absurd rfl (h a b c rest)

theorem swapTriples_perm (l : List β) : (swapTriples l).Perm l := by
  induction l using swapTriples.induct with
  | case1 a b c rest ih =>
    rw [swapTriples_cons]
    exact ((List.Perm.swap b c _).cons a).trans (((ih.cons c).cons b).cons a)
  | case2 l h => rw [swapTriples.eq_2 l h]

/-- What no triple begins is shorter than a triple. -/
theorem length_lt_of_no_triple {l : List β} (h : ∀ a b c rest, l = a :: b :: c :: rest → False) :
    l.length < 3 := by
  match l, h with
  | [], _ => simp
  | [_], _ => simp
  | [_, _], _ => simp
  | a :: b :: c :: rest, h => exact absurd rfl (h a b c rest)

theorem eq_nil_of_no_triple {l : List β} (h : ∀ a b c rest, l = a :: b :: c :: rest → False)
    (hl : 3 ∣ l.length) : l = [] :=
  List.length_eq_zero_iff.1 (Nat.eq_zero_of_dvd_of_lt hl (length_lt_of_no_triple h))

/-- Full triples are exchanged apart from what comes after them. -/
theorem swapTriples_append {v : List β} (h : 3 ∣ v.length) (w : List β) :
    swapTriples (v ++ w) = swapTriples v ++ swapTriples w := by
  induction v using swapTriples.induct with
  | case1 a b c rest ih =>
    have hrest : 3 ∣ rest.length := by
      simp only [List.length_cons] at h
      omega
    simp only [List.cons_append, swapTriples_cons, ih hrest]
  | case2 v hv =>
    rw [eq_nil_of_no_triple hv h]
    rfl

theorem ExpOrder.InRange.rows_lt {o : ExpOrder} (ho : o.InRange) {i : Nat} (hi : i < 3) :
    o.rows.getD i 0 < 3 := by
  obtain ⟨hx, hy, hz⟩ := ho
  obtain rfl | rfl | rfl : i = 0 ∨ i = 1 ∨ i = 2 := by omega
  · exact hx
  · exact hy
  · exact hz

theorem ExpOrder.standard_rows_lt {i : Nat} (hi : i < 3) : ExpOrder.standard.rows.getD i 0 < 3 :=
  InRange.rows_lt (by decide) hi

/-- The rows of a permutation are those of a cone. -/
theorem ExpOrder.IsPermutation.inRange {o : ExpOrder} (ho : o.IsPermutation) : o.InRange := by
  have hlt : ∀ row ∈ o.rows, row < 3 := by
    intro row hrow
    have hrow := ho.mem_iff.1 hrow
    simp at hrow
    omega
  exact ⟨hlt o.x (by simp [rows]), hlt o.y (by simp [rows]), hlt o.z (by simp [rows])⟩

/-- Entry by entry: the first one of a triple stays, the other two change places. -/
theorem getElem?_swapTriples {l : List β} (hl : 3 ∣ l.length) (j : Nat) {i : Nat} (hi : i < 3) :
    (swapTriples l)[3 * j + i]? = l[3 * j + ExpOrder.standard.rows.getD i 0]? := by
  induction l using swapTriples.induct generalizing j with
  | case1 a b c rest ih =>
    have hrest : 3 ∣ rest.length := by
      simp only [List.length_cons] at hl
      omega
    cases j with
    | zero =>
      obtain rfl | rfl | rfl : i = 0 ∨ i = 1 ∨ i = 2 := by omega
      · rfl
      · rfl
      · rfl
    | succ j =>
      have hdrop : ∀ (l : List β) (k : Nat),
          (a :: b :: c :: l)[3 * (j + 1) + k]? = l[3 * j + k]? := by
        intro l k
        rw [show 3 * (j + 1) + k = 3 * j + k + 1 + 1 + 1 by omega]
        rfl
      have hdrop' : (a :: c :: b :: swapTriples rest)[3 * (j + 1) + i]? =
          (swapTriples rest)[3 * j + i]? := by
        rw [show 3 * (j + 1) + i = 3 * j + i + 1 + 1 + 1 by omega]
        rfl
      rw [swapTriples_cons, hdrop', hdrop, ih hrest]
  | case2 l h =>
    rw [eq_nil_of_no_triple h hl]
    rfl

end Lists

namespace DenseVector

theorem dot_swapTriples {α : Type} [CommRing α] {v w : DenseVector α} (h : v.length = w.length) :
    dot (swapTriples v) w = dot v (swapTriples w) := by
  induction v using swapTriples.induct generalizing w with
  | case1 a b c v ih =>
    match w, h with
    | a' :: b' :: c' :: w, h =>
      have hrest : v.length = w.length := by simpa using h
      simp only [swapTriples_cons, dot_cons, ih hrest]
      ring
  | case2 v hv =>
    have hw : swapTriples w = w := by
      match v, w, h with
      | [], [], _ => rfl
      | [_], [_], _ => rfl
      | [_, _], [_, _], _ => rfl
      | a :: b :: c :: rest, _, _ => exact absurd rfl (hv a b c rest)
    rw [hw, swapTriples.eq_2 v hv]

end DenseVector

/-- Triples are read one by one. -/
theorem ExpOrder.toArgs_cons {α : Type} [Zero α] {o : ExpOrder} (ho : o.InRange) (a b c : α)
    (rest : DenseVector α) : o.toArgs (a :: b :: c :: rest) =
      (o.rows.map (DenseVector.entry [a, b, c]) ++ ·) <$> o.toArgs rest := by
  obtain ⟨hx, hy, hz⟩ := ho
  have hget : ∀ i < 3, [a, b, c][i]? = some (DenseVector.entry [a, b, c] i) := fun i hi =>
    (DenseVector.some_entry hi).symm
  rw [toArgs, hget _ hx, hget _ hy, hget _ hz]
  rfl

/-- Reading triples in the standard order exchanges second and third entries. -/
theorem toArgs_standard {α : Type} [Zero α] {v : DenseVector α} (h : 3 ∣ v.length) :
    ExpOrder.standard.toArgs v = .ok (swapTriples v) := by
  induction v using swapTriples.induct with
  | case1 a b c rest ih =>
    have hrest : 3 ∣ rest.length := by
      simp only [List.length_cons] at h
      omega
    rw [ExpOrder.toArgs_cons (by decide), ih hrest]
    rfl
  | case2 v hv =>
    rw [eq_nil_of_no_triple hv h]
    rfl

end Conic
