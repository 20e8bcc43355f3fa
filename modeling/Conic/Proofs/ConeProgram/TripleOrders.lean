import Conic.Proofs.ConeProgram.Placement
import Conic.Proofs.Segments

/-!
# Triples in the order of rows

The triples of the arguments are written to rows (`ExpOrder.Writes`) and read off rows
(`ExpOrder.Reads`). If the order is a permutation, one undoes the other, in both directions: every
row is written once, by the argument that reads it. Only what is left over after the last full
triple is lost (`DenseVector.fullTriples`). The right-hand side of an exponential constraint is
written in the same way.
-/

namespace Conic

variable {α : Type}

/-! ## Vectors of triples -/

namespace DenseVector

section FullTriples

variable [Zero α] {v w : DenseVector α}

/-- The full triples of a vector, and zeros for what is left over. -/
def fullTriples (v : DenseVector α) : DenseVector α :=
  v.take (3 * (v.length / 3)) ++ zeros (v.length % 3)

omit [Zero α] in
theorem length_take_triples (v : DenseVector α) :
    (v.take (3 * (v.length / 3))).length = 3 * (v.length / 3) := by
  rw [List.length_take]
  omega

@[simp] theorem length_fullTriples (v : DenseVector α) : v.fullTriples.length = v.length := by
  rw [fullTriples, List.length_append, length_take_triples, zeros, List.length_replicate]
  omega

theorem getElem?_fullTriples {i : Nat} (hi : i < 3 * (v.length / 3)) :
    v.fullTriples[i]? = v[i]? := by
  rw [fullTriples, List.getElem?_append_left (by rwa [length_take_triples]),
    List.getElem?_take_of_lt hi]

theorem getElem?_fullTriples_leftover {i : Nat} (hi : 3 * (v.length / 3) ≤ i) (hlt : i < v.length) :
    v.fullTriples[i]? = some 0 := by
  rw [fullTriples, List.getElem?_append_right (by rwa [length_take_triples]), length_take_triples]
  exact List.getElem?_replicate_of_lt (by omega)

/-- In a vector of triples nothing is left over. -/
theorem fullTriples_of_dvd (h : 3 ∣ v.length) : v.fullTriples = v := by
  rw [fullTriples, Nat.mul_div_cancel' h, Nat.mod_eq_zero_of_dvd h, List.take_length]
  exact List.append_nil v

/-- Vectors are the same if their full triples are and nothing else is left over than zeros. -/
theorem ext_triples (hlen : v.length = w.length)
    (htriple : ∀ j i, i < 3 → 3 * j + 3 ≤ v.length → v[3 * j + i]? = w[3 * j + i]?)
    (hv : ∀ i, 3 * (v.length / 3) ≤ i → i < v.length → v[i]? = some 0)
    (hw : ∀ i, 3 * (v.length / 3) ≤ i → i < v.length → w[i]? = some 0) : v = w := by
  refine List.ext_getElem? fun p => ?_
  by_cases hp : p < 3 * (v.length / 3)
  · have hsplit := Nat.div_add_mod p 3
    rw [← hsplit]
    exact htriple (p / 3) (p % 3) (Nat.mod_lt p (by decide)) (by omega)
  · by_cases hlt : p < v.length
    · rw [hv p (by omega) hlt, hw p (by omega) hlt]
    · rw [List.getElem?_eq_none (by omega), List.getElem?_eq_none (by omega)]

end FullTriples

/-- The entries of three vectors, a triple for each place. -/
def triples : DenseVector α → DenseVector α → DenseVector α → DenseVector α
  | a :: u, b :: v, c :: w => a :: b :: c :: triples u v w
  | _, _, _ => []

variable {u v w : DenseVector α}

theorem length_triples (hv : v.length = u.length) (hw : w.length = u.length) :
    (triples u v w).length = 3 * u.length := by
  induction u, v, w using triples.induct with
  | case1 a u b v c w ih =>
    simp only [List.length_cons, Nat.add_right_cancel_iff] at hv hw
    simp only [triples, List.length_cons, ih hv hw]
    omega
  | case2 u v w h =>
    match u, v, w, hv, hw with
    | [], [], [], _, _ => rfl
    | a :: u, b :: v, c :: w, _, _ => exact absurd rfl (h a u b v c w rfl rfl)

theorem getElem?_triples (hv : v.length = u.length) (hw : w.length = u.length) (j : Nat) :
    (triples u v w)[3 * j]? = u[j]? ∧ (triples u v w)[3 * j + 1]? = v[j]? ∧
      (triples u v w)[3 * j + 2]? = w[j]? := by
  induction u, v, w using triples.induct generalizing j with
  | case1 a u b v c w ih =>
    simp only [List.length_cons, Nat.add_right_cancel_iff] at hv hw
    cases j with
    | zero => exact ⟨rfl, rfl, rfl⟩
    | succ j =>
      have hlater : ∀ r, (triples (a :: u) (b :: v) (c :: w))[3 * (j + 1) + r]? =
          (triples u v w)[3 * j + r]? := fun r => by
        rw [show 3 * (j + 1) + r = 3 * j + r + 3 by omega]
        rfl
      exact ⟨(hlater 0).trans (ih hv hw j).1, (hlater 1).trans (ih hv hw j).2.1,
        (hlater 2).trans (ih hv hw j).2.2⟩
  | case2 u v w h =>
    match u, v, w, hv, hw with
    | [], [], [], _, _ => exact ⟨rfl, rfl, rfl⟩
    | a :: u, b :: v, c :: w, _, _ => exact absurd rfl (h a u b v c w rfl rfl)

end DenseVector

/-! ## Writing and reading triples -/

namespace ExpOrder

variable {o : ExpOrder}

theorem IsPermutation.exists_row (ho : o.IsPermutation) {row : Nat} (hrow : row < 3) :
    ∃ i < 3, o.rows.getD i 0 = row := by
  have hmem : row ∈ o.rows := ho.mem_iff.2 (by simp; omega)
  obtain ⟨i, hi, rfl⟩ := List.mem_iff_getElem.1 hmem
  exact ⟨i, hi, (List.getElem_eq_getD 0).symm⟩

/-- The rows written to are those of the full triples, each one once. -/
theorem map_fst_placements_perm (ho : o.IsPermutation) (base : Nat) (v : DenseVector α) :
    ((o.placements base v).map Prod.fst).Perm
    ((List.range (3 * (v.length / 3))).map (base + ·)) := by
  induction base, v using placements.induct with
  | case1 base a b c rest ih =>
    have hlen : 3 * ((a :: b :: c :: rest).length / 3) = 3 + 3 * (rest.length / 3) := by
      simp only [List.length_cons]
      omega
    rw [hlen, List.range_add, List.map_append, List.map_map]
    have hrest : (base + ·) ∘ (3 + ·) = (base + 3 + ·) := funext fun n => (Nat.add_assoc ..).symm
    rw [hrest]
    exact (ho.map (base + ·)).append ih
  | case2 v base h =>
    rw [Nat.div_eq_of_lt (length_lt_of_no_triple h), placements]
    · exact .refl _
    · exact h

/-- Every entry of a full triple is written to its row. -/
theorem mem_placements {v : DenseVector α} (base : Nat) {j i : Nat} (hi : i < 3)
    (hj : 3 * j + 3 ≤ v.length) :
    ∃ a, v[3 * j + i]? = some a ∧ (base + (3 * j + o.rows.getD i 0), a) ∈ o.placements base v := by
  induction base, v using placements.induct generalizing j with
  | case1 base a b c rest ih =>
    cases j with
    | zero =>
      obtain rfl | rfl | rfl : i = 0 ∨ i = 1 ∨ i = 2 := by omega
      · exact ⟨a, rfl, by simp [rows, placements]⟩
      · exact ⟨b, rfl, by simp [rows, placements]⟩
      · exact ⟨c, rfl, by simp [rows, placements]⟩
    | succ j =>
      obtain ⟨e, he, hmem⟩ := ih (j := j) (by simp only [List.length_cons] at hj; omega)
      refine ⟨e, ?_, ?_⟩
      · rw [show 3 * (j + 1) + i = 3 * j + i + 3 by omega]
        exact he
      · rw [show base + (3 * (j + 1) + o.rows.getD i 0) =
          base + 3 + (3 * j + o.rows.getD i 0) by omega]
        exact .tail _ (.tail _ (.tail _ hmem))
  | case2 v base h =>
    have hlt := length_lt_of_no_triple h
    omega

variable [Zero α] {v w d : DenseVector α}

/-- `w` has the full triples of `v` on the rows of the arguments, and zeros for what is left
over. -/
structure Writes (o : ExpOrder) (v w : DenseVector α) : Prop where
  length_eq : w.length = v.length
  triple : ∀ j i, i < 3 → 3 * j + 3 ≤ v.length → w[3 * j + o.rows.getD i 0]? = v[3 * j + i]?
  leftover : ∀ i, 3 * (v.length / 3) ≤ i → i < v.length → w[i]? = some 0

theorem exists_toRows (ho : o.IsPermutation) (v : DenseVector α) :
    ∃ w, o.toRows v = .ok w ∧ o.Writes v w := by
  have hrows := o.map_fst_placements_perm ho 0 v
  simp only [Nat.zero_add, List.map_id'] at hrows
  have hmem : ∀ row, row ∈ (o.placements 0 v).map Prod.fst ↔ row < 3 * (v.length / 3) := fun row =>
    hrows.mem_iff.trans List.mem_range
  have hzeros : (DenseVector.zeros v.length : DenseVector α).length = v.length :=
    List.length_replicate
  have hinside : ∀ x ∈ o.placements 0 v,
      x.1 < (DenseVector.zeros v.length : DenseVector α).length := by
    intro x hx
    have hlt := (hmem x.1).1 (List.mem_map_of_mem hx)
    omega
  obtain ⟨w, hw⟩ := DenseVector.exists_writeAll? hinside
  obtain ⟨hlen, hkept, hwritten⟩ := DenseVector.writeAll?_eq_some hw
  refine ⟨w, by rw [toRows, hw], hlen.trans hzeros, ?_, ?_⟩
  · -- no row is written twice, so that every entry stays where it was written
    intro j i hi hj
    obtain ⟨a, ha, hplace⟩ := o.mem_placements 0 hi hj
    have hone := hwritten (hrows.nodup_iff.2 List.nodup_range) _ hplace
    rwa [Nat.zero_add, ← ha] at hone
  · intro i hi hlt
    rw [hkept i fun hin => absurd ((hmem i).1 hin) (by omega)]
    exact List.getElem?_replicate_of_lt hlt

theorem Writes.unique (ho : o.IsPermutation) (h : o.Writes v w) {w' : DenseVector α}
    (h' : o.Writes v w') : w = w' := by
  have hlen := h.length_eq
  refine DenseVector.ext_triples (hlen.trans h'.length_eq.symm) ?_ ?_ ?_
  · intro j row hrow hj
    obtain ⟨i, hi, rfl⟩ := ho.exists_row hrow
    rw [h.triple j i hi (by omega), h'.triple j i hi (by omega)]
  · intro i hi hlt
    exact h.leftover i (by omega) (by omega)
  · intro i hi hlt
    exact h'.leftover i (by omega) (by omega)

theorem Reads.unique (h : o.Reads v d) {d' : DenseVector α} (h' : o.Reads v d') : d = d' := by
  have hlen := h.length_eq
  refine DenseVector.ext_triples (hlen.trans h'.length_eq.symm) ?_ ?_ ?_
  · intro j i hi hj
    rw [h.triple j i hi (by omega), h'.triple j i hi (by omega)]
  · intro i hi hlt
    exact h.leftover i (by omega) (by omega)
  · intro i hi hlt
    exact h'.leftover i (by omega) (by omega)

theorem toRows_eq_ok (ho : o.IsPermutation) : o.toRows v = .ok w ↔ o.Writes v w := by
  obtain ⟨w', hw', hwrites⟩ := exists_toRows ho v
  rw [hw']
  constructor
  · rintro ⟨⟩
    exact hwrites
  · intro h
    rw [h.unique ho hwrites]

theorem toArgs_eq_ok (ho : o.InRange) : o.toArgs v = .ok d ↔ o.Reads v d := by
  obtain ⟨d', hd', hreads⟩ := exists_toArgs ho v
  rw [hd']
  constructor
  · rintro ⟨⟩
    exact hreads
  · intro h
    rw [h.unique hreads]

/-- What is written can be read off again. -/
theorem Writes.reads (h : o.Writes v w) : o.Reads w v.fullTriples := by
  have hlen := h.length_eq
  refine ⟨by rw [DenseVector.length_fullTriples, hlen], ?_, ?_⟩
  · intro j i hi hj
    rw [DenseVector.getElem?_fullTriples (by omega), h.triple j i hi (by omega)]
  · intro i hi hlt
    exact DenseVector.getElem?_fullTriples_leftover (by omega) (by omega)

/-- What is read off can be written back. -/
theorem Reads.writes (ho : o.InRange) (h : o.Reads v d) : o.Writes d v.fullTriples := by
  have hlen := h.length_eq
  refine ⟨by rw [DenseVector.length_fullTriples, hlen], ?_, ?_⟩
  · intro j i hi hj
    have hrow := ho.rows_lt hi
    rw [DenseVector.getElem?_fullTriples (by omega), h.triple j i hi (by omega)]
  · intro i hi hlt
    exact DenseVector.getElem?_fullTriples_leftover (by omega) (by omega)

end ExpOrder

/-! ## Exponential constraints -/

section Constraints

variable [Zero α] [One α] [Add α] [Mul α] [Neg α]

/-- The constants of the arguments are written to the right-hand side, triple by triple. -/
theorem Constraint.writes_of_rows {o : ExpOrder} (ho : o.IsPermutation) {id : ConstrId}
    {x y z : AffineExpr α} {hy : y.size = x.size} {hz : z.size = x.size} {v : Variable}
    {block : RowBlock α} (h : Constraint.rows ⟨id, .exponential x y z hy hz⟩ v o = .ok block) :
    o.Writes (DenseVector.triples x.constant y.constant z.constant) block.offset := by
  have hplaced := placed_of_rows rfl ho h
  have hlen : (DenseVector.triples x.constant y.constant z.constant).length = 3 * x.size :=
    DenseVector.length_triples hy hz
  refine ⟨?_, ?_, fun i hi hlt => by omega⟩
  · rw [hlen, hplaced.fits.length_offset]
    show [x.size, y.size, z.size].sum = 3 * x.size
    rw [hy, hz]
    simp only [List.sum_cons, List.sum_nil]
    omega
  · intro j i hi hj
    have hentry := DenseVector.getElem?_triples hy hz j
    have hj : j < x.size := by omega
    have hrow : ∀ k e, [x, y, z][k]? = some e → j < e.size →
        block.offset[3 * j + o.rows.getD k 0]? = e.constant[j]? := fun k e he hj =>
      (hplaced.offset k e he j hj).trans (Option.map_id' ..)
    obtain rfl | rfl | rfl : i = 0 ∨ i = 1 ∨ i = 2 := by omega
    · exact (hrow 0 x rfl hj).trans hentry.1.symm
    · exact (hrow 1 y rfl (hy ▸ hj)).trans hentry.2.1.symm
    · exact (hrow 2 z rfl (hz ▸ hj)).trans hentry.2.2.symm

/-- Under a permutation of the rows of a cone, writing triples to rows and reading them off are
inverse to each other, in both directions and for vectors of any length: what is left over after the
last full triple becomes zero, all else stays. The rows of an exponential constraint have the same
order: its right-hand side has the constants of the arguments, triple by triple, as they are written
to rows, and they can be read off from there. -/
theorem ExpOrder.toRows_toArgs_inverse {o : ExpOrder} (ho : o.IsPermutation) :
    (∀ v : DenseVector α, (o.toRows v >>= o.toArgs) = .ok v.fullTriples ∧
      (o.toArgs v >>= o.toRows) = .ok v.fullTriples ∧ (3 ∣ v.length → v.fullTriples = v)) ∧
    ∀ (id : ConstrId) (x y z : AffineExpr α) (hy : y.size = x.size) (hz : z.size = x.size)
      (v : Variable)
      (block : RowBlock α), Constraint.rows ⟨id, .exponential x y z hy hz⟩ v o = .ok block →
      o.toRows (DenseVector.triples x.constant y.constant z.constant) = .ok block.offset ∧
        o.toArgs block.offset = .ok (DenseVector.triples x.constant y.constant z.constant) := by
  constructor
  · intro v
    refine ⟨?_, ?_, DenseVector.fullTriples_of_dvd⟩
    · obtain ⟨w, hw, hwrites⟩ := exists_toRows ho v
      exact bind_eq_ok.2 ⟨w, hw, (toArgs_eq_ok ho.inRange).2 hwrites.reads⟩
    · obtain ⟨d, hd, hreads⟩ := exists_toArgs ho.inRange v
      exact bind_eq_ok.2 ⟨d, hd, (toRows_eq_ok ho).2 (hreads.writes ho.inRange)⟩
  · intro id x y z hy hz v block h
    have hwrites := Constraint.writes_of_rows ho h
    have hfull : 3 ∣ (DenseVector.triples x.constant y.constant z.constant).length :=
      ⟨_, DenseVector.length_triples hy hz⟩
    refine ⟨(toRows_eq_ok ho).2 hwrites, (toArgs_eq_ok ho.inRange).2 ?_⟩
    rw [← DenseVector.fullTriples_of_dvd hfull]
    exact hwrites.reads

/-- An order that is not its own inverse, a vector of no full number of triples, and two cones. -/
theorem ExpOrder.cyclicOrder_inverse :
    let o : ExpOrder := ⟨1, 2, 0⟩
    let v : Variable := ⟨⟨0⟩, 2, none⟩
    let x : AffineExpr Int := .ofVariable v
    let c : Constraint Int :=
      ⟨⟨2⟩, .exponential x ((x.scale 3).plus 7) (.ofConstant [1, 2]) rfl rfl⟩
    o.IsPermutation ∧ o.toRows [1, 2, 3, 4, 5] = .ok ([3, 1, 2, 0, 0] : DenseVector Int) ∧
      (o.toRows [1, 2, 3, 4, 5] >>= o.toArgs) = .ok ([1, 2, 3, 0, 0] : DenseVector Int) ∧
      (o.toArgs [1, 2, 3, 4, 5] >>= o.toRows) = .ok ([1, 2, 3, 0, 0] : DenseVector Int) ∧
      ∃ block, c.rows v o = .ok block ∧ block.offset = [1, 0, 7, 2, 0, 7] ∧
        o.toArgs block.offset = .ok [0, 7, 1, 0, 7, 2] := by
  intro o v x c
  have ho : o.IsPermutation := by decide
  have hboth := (toRows_toArgs_inverse (α := Int) ho).1 [1, 2, 3, 4, 5]
  obtain ⟨block, hblock, hoffset⟩ :
      ∃ block, c.rows v o = .ok block ∧ block.offset = [1, 0, 7, 2, 0, 7] :=
    ⟨_, rfl, by decide +kernel⟩
  have hread :=
    ((toRows_toArgs_inverse ho).2 c.id x ((x.scale 3).plus 7) (.ofConstant [1, 2]) rfl rfl v
    block hblock).2
  exact ⟨ho, rfl, hboth.1, hboth.2.1, block, hblock, hoffset, hread⟩

end Constraints

end Conic
