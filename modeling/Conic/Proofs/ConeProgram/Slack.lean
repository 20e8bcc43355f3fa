import Conic.Proofs.ConeProgram.Rows

/-!
# The slack of a constraint

The slack of a block of rows at a point is its right-hand side minus its matrix times the point. For
the rows of a constraint it is made of the values of the arguments: negated for a comparison, and
cone after cone, in the order of the rows, for the others (`slackAt_rows`).
-/

namespace Conic

variable {α : Type}

/-! ## Sizes -/

namespace Condition

theorem size_secondOrder (t u : AffineExpr α) (pos : 0 < t.size) (dvd : t.size ∣ u.size) :
    (secondOrder t u pos dvd).size = t.size * (u.size / t.size + 1) := by
  simp only [size, args, List.map_cons, List.map_nil, List.sum_cons, List.sum_nil]
  rw [Nat.mul_succ, Nat.mul_div_cancel' dvd]
  omega

theorem size_exponential (u v w : AffineExpr α) (hv : v.size = u.size) (hw : w.size = u.size) :
    (exponential u v w hv hw).size = 3 * u.size := by
  simp only [size, args, List.map_cons, List.map_nil, List.sum_cons, List.sum_nil]
  omega

/-- The cones of a condition share its entries. -/
theorem sum_coneSizes (c : Condition α) : c.coneSizes.sum = c.size := by
  cases c with
  | secondOrder t u pos dvd => rw [coneSizes, List.sum_replicate_nat, size_secondOrder]
  | exponential u v w hv hw =>
      rw [coneSizes, List.sum_replicate_nat, size_exponential, Nat.mul_comm]
  | power u v w alpha hv hw inside =>
    simp only [coneSizes, size, args, List.map_cons, List.map_nil, List.sum_cons, List.sum_nil,
      List.sum_replicate_nat, hv, hw]
    omega
  | semidefinite e dim square => simp [coneSizes, size, args, square]
  | zero e => simp [coneSizes, size, args, numCones]
  | nonpos e => simp [coneSizes, size, args, numCones]
  | nonneg e => simp [coneSizes, size, args, numCones]

end Condition

theorem Constraint.size_of_exponential {c : Constraint α} (h : c.kind = .exponential) :
    c.size = 3 * c.condition.numCones := by
  obtain ⟨id, condition⟩ := c
  cases condition with
  | exponential x y z hy hz => exact Condition.size_exponential x y z hy hz
  | _ => cases h

/-- The cones of a list of constraints have the entries of the constraints. -/
theorem sum_flatMap_coneSizes (cs : List (Constraint α)) :
    (cs.flatMap (·.condition.coneSizes)).sum = (cs.map Constraint.size).sum := by
  rw [sum_flatMap]
  exact congrArg List.sum (List.map_congr_left fun c _ => c.condition.sum_coneSizes)

/-! ## The blocks of the kinds -/

namespace Constraint

variable [Zero α] [One α] [Add α] [Mul α] [Neg α]

theorem rows_secondOrder {c : Constraint α} {v : Variable} {o : ExpOrder} {block : RowBlock α}
    {t x : AffineExpr α} {pos : 0 < t.size} {dvd : t.size ∣ x.size}
    (hc : c.condition = .secondOrder t x pos dvd) (h : c.rows v o = .ok block) :
    ∃ inner rt rx, block = RowBlock.slack inner ∧ inner.Fits c.size v.size ∧
      t.rowsOver v = .ok rt ∧ inner.Holds rt (boundRows t.size (x.size / t.size)) ∧
      x.rowsOver v = .ok rx ∧ inner.Holds rx (bodyRows t.size (x.size / t.size)) := by
  rw [rows, hc] at h
  obtain ⟨inner, hinner, rfl⟩ := map_eq_ok.1 h
  have hnd := (bound_body_perm t.size (x.size / t.size)).nodup_iff.2 List.nodup_range
  obtain ⟨hfits, hall⟩ := RowBlock.interleave_eq_ok hinner (by simpa using hnd) (by
    simp [Nat.mul_div_cancel' dvd])
  obtain ⟨rt, ht, htHolds⟩ := hall _ List.mem_cons_self
  obtain ⟨rx, hx, hxHolds⟩ := hall _ (List.mem_cons_of_mem _ List.mem_cons_self)
  exact ⟨inner, rt, rx, rfl, hfits, ht, htHolds, hx, hxHolds⟩

theorem rows_exponential {c : Constraint α} {v : Variable} {o : ExpOrder} (ho : o.IsPermutation)
    {block : RowBlock α} {x y z : AffineExpr α} {hy : y.size = x.size} {hz : z.size = x.size}
    (hc : c.condition = .exponential x y z hy hz) (h : c.rows v o = .ok block) :
    ∃ inner rx ry rz, block = RowBlock.slack inner ∧ inner.Fits c.size v.size ∧
      x.rowsOver v = .ok rx ∧ inner.Holds rx (tripleRows x.size o.x) ∧
      y.rowsOver v = .ok ry ∧ inner.Holds ry (tripleRows x.size o.y) ∧
      z.rowsOver v = .ok rz ∧ inner.Holds rz (tripleRows x.size o.z) := by
  rw [rows, hc] at h
  obtain ⟨inner, hinner, rfl⟩ := map_eq_ok.1 h
  have hnd := (triple_perm ho x.size).nodup_iff.2 List.nodup_range
  obtain ⟨hfits, hall⟩ := RowBlock.interleave_eq_ok hinner (by simpa using hnd) (by simp [hy, hz])
  obtain ⟨rx, hx, hxHolds⟩ := hall _ List.mem_cons_self
  obtain ⟨ry, hy, hyHolds⟩ := hall _ (List.mem_cons_of_mem _ List.mem_cons_self)
  obtain ⟨rz, hz, hzHolds⟩ :=
    hall _ (List.mem_cons_of_mem _ (List.mem_cons_of_mem _ List.mem_cons_self))
  exact ⟨inner, rx, ry, rz, rfl, hfits, hx, hxHolds, hy, hyHolds, hz, hzHolds⟩

/-- A block has a row for each entry of its constraint. -/
theorem rows_fits {c : Constraint α} {v : Variable} {o : ExpOrder} (ho : o.IsPermutation)
    {block : RowBlock α} (h : c.rows v o = .ok block) : block.Fits c.size v.size := by
  have hcomparison : ∀ e : AffineExpr α, c.size = e.size →
      RowBlock.comparison <$> e.rowsOver v = .ok block → block.Fits c.size v.size := by
    intro e hsize he
    obtain ⟨r, hr, rfl⟩ := map_eq_ok.1 he
    have hfits := AffineExpr.rowsOver_fits hr
    rw [hsize]
    exact ⟨hfits.nrows_eq, hfits.ncols_eq, by
      rw [← hfits.length_offset]
      simp [RowBlock.comparison, DenseVector.neg]⟩
  cases hc : c.condition with
  | zero e =>
    refine hcomparison e (by simp [size, Condition.size, Condition.args, hc]) ?_
    rw [rows, hc] at h
    exact h
  | nonpos e =>
    refine hcomparison e (by simp [size, Condition.size, Condition.args, hc]) ?_
    rw [rows, hc] at h
    exact h
  | secondOrder t x pos dvd =>
    obtain ⟨inner, _, _, rfl, hfits, _⟩ := rows_secondOrder hc h
    exact ⟨hfits.nrows_eq, hfits.ncols_eq, hfits.length_offset⟩
  | exponential x y z hy hz =>
    obtain ⟨inner, _, _, _, rfl, hfits, _⟩ := rows_exponential ho hc h
    exact ⟨hfits.nrows_eq, hfits.ncols_eq, hfits.length_offset⟩
  | nonneg e => rw [rows, hc] at h; cases h
  | semidefinite e dim square => rw [rows, hc] at h; cases h
  | power x y z alpha hy hz inside => rw [rows, hc] at h; cases h

end Constraint

/-! ## Slacks -/

variable [CommRing α]

namespace RowBlock

/-- The right-hand side minus the matrix times a point. -/
def slackAt (b : RowBlock α) (x : DenseVector α) : DenseVector α := b.offset.sub (b.matrix.mulVec x)

theorem slackAt_eq {b : RowBlock α} {nrows ncols : Nat} (h : b.Fits nrows ncols)
    (x : DenseVector α) :
    b.slackAt x = (List.range nrows).map fun i => b.offset.entry i - b.matrix.rowValue x i := by
  have hlen := h.length_offset
  have hrows := h.nrows_eq
  refine List.ext_getElem (by simp [slackAt, DenseVector.sub, hlen, hrows]) fun i hi hi' => ?_
  have hoff : i < b.offset.length := by
    rw [hlen]
    simpa using hi'
  simp only [slackAt, DenseVector.sub, SparseMatrix.mulVec, List.getElem_zipWith, List.getElem_map,
    List.getElem_range]
  rw [DenseVector.entry_of_lt hoff]

/-- The rows of a comparison have the values of the expression, negated. -/
theorem slackAt_comparison {e : AffineExpr α} {v : Variable} {r : RowBlock α}
    (h : e.rowsOver v = .ok r) (x : Assignment α) :
    (comparison r).slackAt (x v.id) = (e.value x).neg := by
  have hfits := AffineExpr.rowsOver_fits h
  have hneg : (comparison r).Fits e.size v.size := ⟨hfits.nrows_eq, hfits.ncols_eq, by
    rw [← hfits.length_offset]
    simp [comparison, DenseVector.neg]⟩
  rw [slackAt_eq hneg, AffineExpr.value, DenseVector.neg, List.map_map]
  refine List.map_congr_left fun i hi => ?_
  have hi : i < r.offset.length := by
    rw [hfits.length_offset]
    exact List.mem_range.1 hi
  have hoff : (comparison r).offset.entry i = - r.offset.entry i := DenseVector.entry_map (- ·) hi
  rw [hoff, Function.comp, AffineExpr.valueAt_eq h]
  show _ - r.matrix.rowValue (x v.id) i = _
  ring

/-- On the place of one of its rows, an expression has its value as slack. -/
theorem slack_entry_of_holds {e : AffineExpr α} {v : Variable} {inner rows : RowBlock α}
    {places : List Nat} {nrows : Nat} (hfits : inner.Fits nrows v.size)
    (hrows : e.rowsOver v = .ok rows) (hholds : inner.Holds rows places) {i row : Nat}
    (hplace : places[i]? = some row) (x : Assignment α) :
    (slack inner).offset.entry row - (slack inner).matrix.rowValue (x v.id) row =
    e.valueAt x i := by
  obtain ⟨hm, ho⟩ := hholds i row hplace
  have hc : inner.matrix.ncols = rows.matrix.ncols := by
    rw [hfits.ncols_eq, (AffineExpr.rowsOver_fits hrows).ncols_eq]
  show inner.offset.entry row - inner.matrix.neg.rowValue (x v.id) row = _
  rw [SparseMatrix.rowValue_neg, SparseMatrix.rowValue_congr hc hm, AffineExpr.valueAt_eq hrows,
    DenseVector.entry_eq, ho, ← DenseVector.entry_eq]
  ring

end RowBlock

/-- The slack of the rows of a condition, in the order of the rows. Kinds without rows have none. -/
def Condition.slack (c : Condition α) (x : Assignment α) : DenseVector α :=
  match c with
  | zero e => (e.value x).neg
  | nonpos e => (e.value x).neg
  | secondOrder t u _ _ =>
    let body := u.size / t.size
    (List.range t.size).flatMap fun j =>
      t.valueAt x j :: (List.range body).map fun r => u.valueAt x (j * body + r)
  | exponential u v w _ _ =>
    (List.range u.size).flatMap fun j => [u.valueAt x j, w.valueAt x j, v.valueAt x j]
  | _ => []

namespace Constraint

theorem slackAt_secondOrder {c : Constraint α} {v : Variable} {block : RowBlock α}
    {t u : AffineExpr α} {pos : 0 < t.size} {dvd : t.size ∣ u.size}
    (hc : c.condition = .secondOrder t u pos dvd) (h : c.rows v .standard = .ok block)
    (x : Assignment α) :
    block.slackAt (x v.id) = Condition.slack (.secondOrder t u pos dvd) x := by
  have hfits := rows_fits standard_isPermutation h
  obtain ⟨inner, rt, ru, rfl, hinner, ht, htHolds, hu, huHolds⟩ := rows_secondOrder hc h
  rw [RowBlock.slackAt_eq hfits, size, hc, Condition.size_secondOrder, map_range_mul]
  refine List.flatMap_congr fun j hj => ?_
  have hj := List.mem_range.1 hj
  rw [map_range_succ]
  congr 1
  · exact RowBlock.slack_entry_of_holds hinner ht htHolds (getElem?_boundRows hj) x
  · refine List.map_congr_left fun r hr => ?_
    have hplace := getElem?_bodyRows hj (List.mem_range.1 hr)
    rw [show j * (u.size / t.size + 1) + (r + 1) = j * (u.size / t.size + 1) + 1 + r by omega]
    exact RowBlock.slack_entry_of_holds hinner hu huHolds hplace x

theorem slackAt_exponential {c : Constraint α} {v : Variable} {block : RowBlock α}
    {e₁ e₂ e₃ : AffineExpr α} {h₂ : e₂.size = e₁.size} {h₃ : e₃.size = e₁.size}
    (hc : c.condition = .exponential e₁ e₂ e₃ h₂ h₃) (h : c.rows v .standard = .ok block)
    (x : Assignment α) :
    block.slackAt (x v.id) = Condition.slack (.exponential e₁ e₂ e₃ h₂ h₃) x := by
  have hfits := rows_fits standard_isPermutation h
  obtain ⟨inner, r₁, r₂, r₃, rfl, hinner, hr₁, hHolds₁, hr₂, hHolds₂, hr₃, hHolds₃⟩ :=
    rows_exponential standard_isPermutation hc h
  rw [RowBlock.slackAt_eq hfits, size, hc, Condition.size_exponential, Nat.mul_comm, map_range_mul]
  refine List.flatMap_congr fun j hj => ?_
  have hj := List.mem_range.1 hj
  -- the rows of a cone are those of its first, third and second argument
  have hfirst := RowBlock.slack_entry_of_holds hinner hr₁ hHolds₁ (getElem?_tripleRows hj) x
  have hsecond := RowBlock.slack_entry_of_holds hinner hr₂ hHolds₂ (getElem?_tripleRows hj) x
  have hthird := RowBlock.slack_entry_of_holds hinner hr₃ hHolds₃ (getElem?_tripleRows hj) x
  simp only [ExpOrder.standard, Nat.mul_comm 3 j] at hfirst hsecond hthird
  rw [← hfirst, ← hsecond, ← hthird]
  rfl

/-- The rows of a constraint have its slack. -/
theorem slackAt_rows {c : Constraint α} {v : Variable} {block : RowBlock α}
    (h : c.rows v .standard = .ok block) (x : Assignment α) :
    block.slackAt (x v.id) = c.condition.slack x := by
  cases hc : c.condition with
  | zero e =>
    rw [rows, hc] at h
    obtain ⟨r, hr, rfl⟩ := map_eq_ok.1 h
    exact RowBlock.slackAt_comparison hr x
  | nonpos e =>
    rw [rows, hc] at h
    obtain ⟨r, hr, rfl⟩ := map_eq_ok.1 h
    exact RowBlock.slackAt_comparison hr x
  | secondOrder t u pos dvd => exact slackAt_secondOrder hc h x
  | exponential u w z hw hz => exact slackAt_exponential hc h x
  | nonneg e => rw [rows, hc] at h; cases h
  | semidefinite e dim square => rw [rows, hc] at h; cases h
  | power x y z alpha hy hz inside => rw [rows, hc] at h; cases h

end Constraint

end Conic
