import Conic.Proofs.ConeProgram.Ownership
import Conic.Proofs.SparseMatrix.Canonical
import Conic.Proofs.Stacked.Equivalence

/-!
# The shape of an assembled program

The matrices of a program, its cone dimensions and the segments of its recovery are computed in
separate passes over the constraints. They agree on every size (`Assembled.agrees`), because the
entries of a condition are shared out among its cones without remainder. A check of the sizes
therefore never fails on an assembled program.
-/

namespace Conic

variable {α : Type}

/-- The number of cone rows that the segments give to one kind. -/
def Recovery.rowsOfKind (r : Recovery α) (k : ConeKind) : Nat :=
  ((r.cones.filter (·.kind = k)).map Segment.size).sum

/-- Program and recovery agree on all sizes, and the matrices are in compressed column form. -/
structure ConeProgram.Agrees (q : ConeProgram α) (r : Recovery α) : Prop where
  a_ncols : q.a.ncols = r.varSize
  g_ncols : q.g.ncols = r.varSize
  length_c : q.c.length = r.varSize
  length_b : q.b.length = q.a.nrows
  a_nrows : q.a.nrows = (r.equalities.map Segment.size).sum
  length_h : q.h.length = q.g.nrows
  g_nrows : q.g.nrows = q.dims.rows
  /-- The rows that the program counts are those of the matrix as long as these fit a word. -/
  dims_total : q.dims.total = word q.g.nrows
  dims_rows : q.dims.rows = (r.cones.map Segment.size).sum
  linear : q.dims.linear = r.rowsOfKind .nonpos
  secondOrder : q.dims.secondOrder.sum = r.rowsOfKind .secondOrder
  exponential : 3 * q.dims.exponential = r.rowsOfKind .exponential
  secondOrder_pos : ∀ n ∈ q.dims.secondOrder, 1 ≤ n
  a_canonical : q.a.Canonical
  g_canonical : q.g.Canonical

theorem ConeProgram.Agrees.stackable {q : ConeProgram α} {r : Recovery α} (h : q.Agrees r) :
    q.Stackable :=
  have hconsistent : q.Consistent :=
    { a_ncols := h.a_ncols.trans h.length_c.symm
      g_ncols := h.g_ncols.trans h.length_c.symm
      length_b := h.length_b
      length_h := h.length_h
      g_nrows := h.dims_total.symm }
  hconsistent.stackable_of_g_nrows h.g_nrows

/-! ## Cone dimensions -/

theorem Condition.one_le_of_mem_coneSizes {c : Condition α} (h : c.kind = .secondOrder) {n : Nat}
    (hn : n ∈ c.coneSizes) : 1 ≤ n := by
  cases c with
  | secondOrder t x pos dvd =>
    rw [List.eq_of_mem_replicate hn]
    exact Nat.succ_pos _
  | _ => cases h

theorem sum_size_of_exponential {cs : List (Constraint α)} (h : ∀ c ∈ cs, c.kind = .exponential) :
    (cs.map Constraint.size).sum = 3 * (cs.map (·.condition.numCones)).sum := by
  induction cs with
  | nil => rfl
  | cons c cs ih =>
    rw [List.map_cons, List.map_cons, List.sum_cons, List.sum_cons, Nat.mul_add,
      ih fun d hd => h d (List.mem_cons_of_mem _ hd),
      Constraint.size_of_exponential (h c List.mem_cons_self)]

namespace Problem

/-- Each kind stands in one run of the cone rows. -/
theorem filter_coneConstraints (p : Problem α) {k : ConeKind}
    (hk : k = .nonpos ∨ k = .secondOrder ∨ k = .exponential) :
    p.coneConstraints.filter (·.kind = k) = p.ofKind k := by
  have hself : (p.ofKind k).filter (·.kind = k) = p.ofKind k :=
    List.filter_eq_self.2 fun c hc => decide_eq_true (kind_of_mem_ofKind hc)
  have hother : ∀ j, j ≠ k → (p.ofKind j).filter (·.kind = k) = [] := by
    intro j hj
    refine List.filter_eq_nil_iff.2 fun c hc hck => hj ?_
    rw [← kind_of_mem_ofKind hc]
    exact of_decide_eq_true hck
  rw [coneConstraints, List.filter_append, List.filter_append]
  rcases hk with rfl | rfl | rfl
  · rw [hself, hother .secondOrder (by decide), hother .exponential (by decide), List.append_nil,
      List.append_nil]
  · rw [hself, hother .nonpos (by decide), hother .exponential (by decide), List.nil_append,
      List.append_nil]
  · rw [hself, hother .nonpos (by decide), hother .secondOrder (by decide), List.nil_append,
      List.nil_append]

end Problem

/-! ## Assembled programs -/

theorem SparseMatrix.length_columnSums [Zero α] [Add α] (m : SparseMatrix α) :
    m.columnSums.length = m.ncols := by
  have hfold : ∀ (l : List (Entry α)) (v : DenseVector α),
      (l.foldl (fun v e => v.modify e.col (· + e.value)) v).length = v.length := by
    intro l
    induction l with
    | nil => exact fun _ => rfl
    | cons e l ih => exact fun v => (ih _).trans (List.length_modify ..)
  rw [columnSums, hfold, DenseVector.zeros, List.length_replicate]

namespace Assembled

variable [Zero α] [One α] [Add α] [Mul α] [Neg α] {p : Problem α} {q : ConeProgram α}
    {r : Recovery α}

theorem rowsOfKind_eq (h : Assembled p q r) {k : ConeKind}
    (hk : k = .nonpos ∨ k = .secondOrder ∨ k = .exponential) :
    r.rowsOfKind k = ((p.ofKind k).map Constraint.size).sum := by
  rw [Recovery.rowsOfKind, h.cones, List.filter_map, ← p.filter_coneConstraints hk,
    map_size_ofConstraint]
  rfl

/-- The cones of a program take the rows of its constraints. -/
theorem dims_rows (h : Assembled p q r) :
    q.dims.rows = (p.coneConstraints.map Constraint.size).sum := by
  have hexp := sum_size_of_exponential fun c (hc : c ∈ p.ofKind .exponential) =>
    Problem.kind_of_mem_ofKind hc
  rw [h.dims, ConeDims.rows, sum_flatMap_coneSizes, ← hexp, Problem.coneConstraints,
    List.map_append, List.map_append, List.sum_append, List.sum_append]

theorem agrees (h : Assembled p q r) : q.Agrees r := by
  obtain ⟨row, hrow, hc, -⟩ := h.objective
  have hequalities := h.ownsRows_equalities.fits
  have hcones := h.ownsRows_cones.fits
  have hsecond := h.rowsOfKind_eq (.inr (.inl rfl))
  have hexp := h.rowsOfKind_eq (.inr (.inr rfl))
  rw [sum_size_of_exponential fun c hc => Problem.kind_of_mem_ofKind hc] at hexp
  rw [← sum_flatMap_coneSizes] at hsecond
  exact
    { a_ncols := hequalities.ncols_eq
      g_ncols := hcones.ncols_eq
      length_c := by
        rw [hc, SparseMatrix.length_columnSums, (AffineExpr.rowsOver_fits hrow).ncols_eq]; rfl
      length_b := hequalities.length_offset.trans hequalities.nrows_eq.symm
      a_nrows := by
        rw [h.equalities, map_size_ofConstraint]
        exact hequalities.nrows_eq
      length_h := hcones.length_offset.trans hcones.nrows_eq.symm
      g_nrows := hcones.nrows_eq.trans h.dims_rows.symm
      dims_total := by rw [ConeDims.total, hcones.nrows_eq, h.dims_rows]
      dims_rows := by rw [h.cones, map_size_ofConstraint, h.dims_rows]
      linear := by rw [h.rowsOfKind_eq (.inl rfl), h.dims]
      secondOrder := by rw [hsecond, h.dims]
      exponential := by rw [hexp, h.dims]
      secondOrder_pos := by
        rw [h.dims]
        intro n hn
        obtain ⟨c, hc, hn⟩ := List.mem_flatMap.1 hn
        exact Condition.one_le_of_mem_coneSizes (Problem.kind_of_mem_ofKind hc) hn
      a_canonical := q.a.canonical
      g_canonical := q.g.canonical }

end Assembled

/-- Whatever becomes a cone program has a consistent shape. Program and recovery agree on every
size, and the check of the program never finds its sizes at fault: it accepts the program if and
only if all numbers are finite. -/
theorem Problem.agrees_of_toConeProgram [Zero α] [One α] [Add α] [Mul α] [Neg α] [FiniteTest α]
    {p : Problem α} {q : ConeProgram α} {r : Recovery α} (h : p.toConeProgram = .ok (q, r)) :
    q.Agrees r ∧ (∀ sizes, q.check ≠ .error (.solver (.inconsistentSizes sizes))) ∧
      (q.check = .ok () ↔ ∀ a ∈ q.scalars, FiniteTest.isFinite a) := by
  have hagrees := (toConeProgram_eq_ok h).agrees
  have hcheck := hagrees.stackable.check_eq
  refine ⟨hagrees, fun sizes hsizes => ?_, ?_⟩
  · rw [hcheck] at hsizes
    split at hsizes <;> cases hsizes
  · rw [hcheck, ← List.all_eq_true]
    split
    case isTrue hall => exact iff_of_true rfl hall
    case isFalse hall => exact iff_of_false nofun hall

theorem Problem.everyKind_agrees :
    ∃ q r, everyKind.toConeProgram = .ok (q, r) ∧ q.Agrees r ∧
      (∀ sizes, q.check ≠ .error (.solver (.inconsistentSizes sizes))) ∧ q.check = .ok () := by
  obtain ⟨q, r, h, _⟩ := everyKind_toConeProgram
  obtain ⟨hagrees, hsizes, hfinite⟩ := agrees_of_toConeProgram h
  exact ⟨q, r, h, hagrees, hsizes, hfinite.2 fun _ _ => rfl⟩

end Conic
