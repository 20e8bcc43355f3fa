import Conic.AffineExpr
import Conic.Proofs.SparseMatrix.Product
import Mathlib.Data.List.Forall2

/-!
# Values of affine expressions

An assignment gives every block of variables a vector. The value of an expression is the sum of its
coefficient matrices times these vectors, plus its constant. An expression in one block has the
value of the rows that `rowsOver` reads off (`valueAt_eq`).
-/

namespace Conic

/-! ## Steps that may fail -/

theorem bind_eq_ok {ε β γ : Type} {x : Except ε β} {f : β → Except ε γ} {c : γ} :
    x >>= f = .ok c ↔ ∃ b, x = .ok b ∧ f b = .ok c := by
  cases x <;> simp [bind, Except.bind]

theorem map_eq_ok {ε β γ : Type} {x : Except ε β} {f : β → γ} {c : γ} :
    f <$> x = .ok c ↔ ∃ b, x = .ok b ∧ f b = c := by
  cases x <;> simp [Functor.map, Except.map]

theorem mapM_eq_ok {ε β γ : Type} {f : β → Except ε γ} {l : List β} {r : List γ} :
    l.mapM f = .ok r ↔ List.Forall₂ (fun b c => f b = .ok c) l r := by
  induction l generalizing r with
  | nil =>
    rw [List.mapM_nil, List.forall₂_nil_left_iff]
    exact ⟨fun h => by cases h; rfl, fun h => by rw [h]; rfl⟩
  | cons b l ih =>
    rw [List.mapM_cons, bind_eq_ok, List.forall₂_cons_left_iff]
    constructor
    · rintro ⟨c, hc, h⟩
      obtain ⟨cs, hcs, h⟩ := bind_eq_ok.1 h
      cases h
      exact ⟨c, cs, hc, ih.1 hcs, rfl⟩
    · rintro ⟨c, cs, hc, hcs, rfl⟩
      exact ⟨c, hc, bind_eq_ok.2 ⟨cs, ih.2 hcs, rfl⟩⟩

/-! ## Blocks of rows -/

/-- A vector for every block of variables. -/
abbrev Assignment (α : Type) := VarId → DenseVector α

/-- A block of `nrows` rows over `ncols` variables. -/
structure RowBlock.Fits {α : Type} (b : RowBlock α) (nrows ncols : Nat) : Prop where
  nrows_eq : b.matrix.nrows = nrows
  ncols_eq : b.matrix.ncols = ncols
  length_offset : b.offset.length = nrows

namespace AffineExpr

variable {α : Type}

/-! ## Reading off one block -/

/-- An expression can be read off in `v` when it has no other block, and the width of `v`. -/
theorem rowsOver_eq_ok {e : AffineExpr α} {v : Variable} {b : RowBlock α}
    (h : e.rowsOver v = .ok b) :
    b.offset = e.constant ∧ ((∃ m, e.coeffs = .singleton v.id m ∧ m.ncols = v.size ∧ b.matrix = m) ∨
      (e.coeffs = .empty ∧ b.matrix = .zeros e.size v.size)) := by
  rw [rowsOver] at h
  split at h
  case h_1 => cases h
  case h_2 hkeys =>
    -- only the key `v.id` is left
    have hother : ∀ k, k ≠ v.id → e.coeffs.find? k = none := by
      intro k hk
      rw [← Option.not_isSome_iff_eq_none, ← SortedMap.mem_keys_iff]
      intro hmem
      have := List.find?_eq_none.1 hkeys k hmem
      simp only [decide_eq_true_eq] at this
      exact this hk
    split at h
    case h_1 hnone =>
      cases h
      refine ⟨rfl, .inr ⟨SortedMap.ext_find? fun k => ?_, rfl⟩⟩
      by_cases hk : k = v.id
      · rw [hk, hnone]
        rfl
      · rw [hother k hk]
        rfl
    case h_2 m hsome =>
      split at h
      case isFalse => cases h
      case isTrue hm =>
        cases h
        refine ⟨rfl, .inl ⟨m, SortedMap.ext_find? fun k => ?_, hm, rfl⟩⟩
        by_cases hk : k = v.id
        · rw [hk, hsome, SortedMap.find?_singleton_self]
        · rw [hother k hk, SortedMap.find?_singleton_ne hk]

theorem rowsOver_fits {e : AffineExpr α} {v : Variable} {b : RowBlock α}
    (h : e.rowsOver v = .ok b) : b.Fits e.size v.size := by
  obtain ⟨hoffset, ⟨m, hcoeffs, hncols, hmatrix⟩ | ⟨_, hmatrix⟩⟩ := rowsOver_eq_ok h
  · refine ⟨?_, by rw [hmatrix, hncols], by rw [hoffset, size]⟩
    rw [hmatrix, size]
    exact e.rows_eq m (by rw [hcoeffs, SortedMap.values_singleton]; exact List.mem_singleton_self m)
  · exact ⟨by rw [hmatrix]; rfl, by rw [hmatrix]; rfl, by rw [hoffset, size]⟩

/-! ## Picking entries -/

@[simp] theorem size_pick [Zero α] [Add α] (e : AffineExpr α) (indices : List Nat) :
    (e.pick indices).size = indices.length := by
  simp [pick, size]

theorem select_eq_ok [Zero α] [Add α] {e : AffineExpr α} {indices : List Nat}
    (h : ∀ i ∈ indices, i < e.size) : e.select indices = .ok (e.pick indices) := by
  have hnone : indices.find? (e.size ≤ ·) = none :=
    List.find?_eq_none.2 fun i hi => by simpa using h i hi
  rw [select, hnone]

/-! ## Values -/

variable [CommRing α]

/-- Entry `i` of the value of an expression. -/
def valueAt (e : AffineExpr α) (x : Assignment α) (i : Nat) : α :=
  (e.coeffs.entries.map fun t => t.2.rowValue (x t.1) i).sum + e.constant.entry i

/-- The value of an expression, entry by entry. -/
def value (e : AffineExpr α) (x : Assignment α) : DenseVector α :=
  (List.range e.size).map (e.valueAt x)

theorem length_value (e : AffineExpr α) (x : Assignment α) : (e.value x).length = e.size := by
  simp [value]

theorem valueAt_eq {e : AffineExpr α} {v : Variable} {b : RowBlock α} (h : e.rowsOver v = .ok b)
    (x : Assignment α) (i : Nat) :
    e.valueAt x i = b.matrix.rowValue (x v.id) i + b.offset.entry i := by
  obtain ⟨hoffset, ⟨m, hcoeffs, _, hmatrix⟩ | ⟨hcoeffs, hmatrix⟩⟩ := rowsOver_eq_ok h
  · rw [valueAt, hoffset, hcoeffs, hmatrix]
    simp [SortedMap.singleton]
  · rw [valueAt, hoffset, hcoeffs, hmatrix, SparseMatrix.rowValue_zeros]
    rfl

end AffineExpr

end Conic
