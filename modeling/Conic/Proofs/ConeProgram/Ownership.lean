import Conic.Proofs.ConeProgram.Assembly
import Conic.Proofs.Recovery

/-!
# Rows and duals of a constraint

Every constraint of a problem owns a run of rows of its cone program, and its dual value is the
piece of the dual vector that lies along these rows. The rows are stacked, the right-hand sides
joined, the segments recorded and the duals cut in separate passes; what keeps them together is that
all of them go through the same list of constraints, and that a block is as high as its constraint
is large (`OwnsRows`, `OwnsDuals`).
-/

namespace Conic

variable {α : Type}

/-- The first row of constraint `k` of a stack. -/
def firstRow (cs : List (Constraint α)) (k : Nat) : Nat := ((cs.take k).map Constraint.size).sum

section Rows

variable [Zero α] [One α] [Add α] [Mul α] [Neg α]

/-- Each constraint has its block, row for row, on the rows from its first row on, and there are no
rows beside these. -/
structure OwnsRows (cs : List (Constraint α)) (v : Variable) (stack : RowBlock α) : Prop where
  fits : stack.Fits (cs.map Constraint.size).sum v.size
  block : ∀ k (hk : k < cs.length), ∃ block, cs[k].rows v .standard = .ok block ∧
    block.Fits cs[k].size v.size ∧ ∀ i < cs[k].size,
      (∀ col, stack.matrix.get? (firstRow cs k + i) col = block.matrix.get? i col) ∧
        stack.offset[firstRow cs k + i]? = block.offset[i]?

theorem ownsRows_of_stackedRows {cs : List (Constraint α)} {v : Variable} {stack : RowBlock α}
    (h : Constraint.stackedRows cs v .standard = .ok stack) : OwnsRows cs v stack := by
  refine ⟨Constraint.stackedRows_fits standard_isPermutation h, fun k hk => ?_⟩
  obtain ⟨blocks, hblocks, rfl⟩ := Constraint.stackedRows_eq_ok.1 h
  have hfit := Constraint.blocks_fit standard_isPermutation hblocks
  have hkb : k < blocks.length := by
    rw [← hblocks.length_eq]
    exact hk
  have hrow : cs[k].rows v .standard = .ok blocks[k] := hblocks.get hk hkb
  have hkfit : blocks[k].Fits cs[k].size v.size := hfit.get hk hkb
  refine ⟨blocks[k], hrow, hkfit, fun i hi => ⟨fun col => ?_, ?_⟩⟩
  · have hfirst : firstRow cs k = (((blocks.map RowBlock.matrix).take k).map
        SparseMatrix.nrows).sum := by
      rw [firstRow, List.map_take, ← Constraint.map_nrows_of_fit hfit, ← List.map_take,
        ← List.map_take, List.map_map]
      rfl
    have hkm : k < (blocks.map RowBlock.matrix).length := by simpa using hkb
    have hi' : i < (blocks.map RowBlock.matrix)[k].nrows := by
      rw [List.getElem_map, hkfit.nrows_eq]
      exact hi
    rw [RowBlock.stack, SparseMatrix.get?_stack, hfirst, SparseMatrix.stackedAt_block hkm hi' col,
      List.getElem_map]
    split
    · rfl
    · rw [SparseMatrix.get?_eq_none (.inr (by rw [hkfit.ncols_eq]; omega))]
  · have hfirst : firstRow cs k = (((blocks.map RowBlock.offset).take k).map
        List.length).sum := by
      rw [firstRow, List.map_take, ← Constraint.map_length_offset_of_fit hfit, ← List.map_take]
    have hkm : k < (blocks.map RowBlock.offset).length := by simpa using hkb
    have hi' : i < (blocks.map RowBlock.offset)[k].length := by
      rw [List.getElem_map, hkfit.length_offset]
      exact hi
    rw [RowBlock.stack, hfirst, getElem?_flatten_piece hkm hi', List.getElem_map]

end Rows

/-! ## Duals -/

/-- Each constraint has as its dual value the entries of a dual vector from its first row on; those
of an exponential cone are back in the order of the arguments. -/
def OwnsDuals (cs : List (Constraint α)) (result : DenseVector α)
    (duals : SortedMap ConstrId (DenseVector α)) : Prop :=
  ∀ k (hk : k < cs.length), ∃ d, duals.find? cs[k].id = some d ∧ d.length = cs[k].size ∧
    (cs[k].kind ≠ .exponential → ∀ i < cs[k].size, d[i]? = result[firstRow cs k + i]?) ∧
    (cs[k].kind = .exponential → ∀ j i, i < 3 → 3 * j + i < cs[k].size →
      d[3 * j + i]? = result[firstRow cs k + 3 * j + ExpOrder.standard.rows.getD i 0]?)

theorem Constraint.three_dvd_size {c : Constraint α} (h : c.kind = .exponential) : 3 ∣ c.size := by
  rw [size_of_exponential h]
  exact Nat.dvd_mul_right ..

theorem map_size_ofConstraint (cs : List (Constraint α)) :
    (cs.map Segment.ofConstraint).map Segment.size = cs.map Constraint.size := by
  rw [List.map_map]
  rfl

/-- Constraint `k` of a list gets the piece of the vector along its rows. -/
theorem mem_pieces {cs : List (Constraint α)} {k : Nat} (hk : k < cs.length) (v : DenseVector α) :
    (cs[k].id, (Segment.ofConstraint cs[k]).reading ((v.drop (firstRow cs k)).take cs[k].size)) ∈
      Segment.pieces (cs.map .ofConstraint) v := by
  have hks : k < (cs.map Segment.ofConstraint).length := by
    rw [List.length_map]
    exact hk
  have hpiece := Segment.getElem_pieces v hks
  rw [← List.map_take, map_size_ofConstraint, List.getElem_map] at hpiece
  exact List.mem_of_getElem? hpiece

/-- The rows of a constraint lie inside the stack. -/
theorem firstRow_add_size_le {cs : List (Constraint α)} {k : Nat} (hk : k < cs.length) :
    firstRow cs k + cs[k].size ≤ (cs.map Constraint.size).sum := sum_take_add_le hk Constraint.size

theorem ownsDuals_of_mem {cs : List (Constraint α)} {v : DenseVector α}
    {duals : SortedMap ConstrId (DenseVector α)} (hlen : v.length = (cs.map Constraint.size).sum)
    (h : ∀ id d, (id, d) ∈ Segment.pieces (cs.map .ofConstraint) v → duals.find? id = some d) :
    OwnsDuals cs v duals := by
  intro k hk
  have hinside : firstRow cs k + cs[k].size ≤ v.length := by
    rw [hlen]
    exact firstRow_add_size_le hk
  have hpiece : ((v.drop (firstRow cs k)).take cs[k].size).length = cs[k].size := by
    rw [List.length_take, List.length_drop]
    omega
  refine ⟨_, h _ _ (mem_pieces hk v), by rw [Segment.length_reading, hpiece], ?_, ?_⟩
  · intro hkind i hi
    have hseg : (Segment.ofConstraint cs[k]).kind ≠ .exponential := hkind
    rw [Segment.reading, if_neg hseg, List.getElem?_take_of_lt hi, List.getElem?_drop]
  · intro hkind j i hi hij
    have hseg : (Segment.ofConstraint cs[k]).kind = .exponential := hkind
    have hdvd := Constraint.three_dvd_size hkind
    have hrow : 3 * j + ExpOrder.standard.rows.getD i 0 < cs[k].size := by
      obtain rfl | rfl | rfl : i = 0 ∨ i = 1 ∨ i = 2 := by omega
      · exact hij
      · show 3 * j + 2 < _
        omega
      · show 3 * j + 1 < _
        omega
    rw [Segment.reading, if_pos hseg, getElem?_swapTriples (by rw [hpiece]; exact hdvd) j hi,
      List.getElem?_take_of_lt hrow, List.getElem?_drop, Nat.add_assoc]

/-! ## The recovery of a problem -/

namespace Assembled

variable [Zero α] [One α] [Add α] [Mul α] [Neg α] {p : Problem α} {q : ConeProgram α}
    {r : Recovery α}

theorem ownsRows_equalities (h : Assembled p q r) : OwnsRows (p.ofKind .zero) r.block ⟨q.a, q.b⟩ :=
  ownsRows_of_stackedRows h.equality_rows

theorem ownsRows_cones (h : Assembled p q r) : OwnsRows p.coneConstraints r.block ⟨q.g, q.h⟩ :=
  ownsRows_of_stackedRows h.cone_rows

theorem three_dvd_size (h : Assembled p q r) :
    ∀ s ∈ r.equalities ++ r.cones, s.kind = .exponential → 3 ∣ s.size := by
  intro s hs hkind
  rw [h.equalities, h.cones, ← List.map_append] at hs
  obtain ⟨c, _, rfl⟩ := List.mem_map.1 hs
  exact Constraint.three_dvd_size hkind

/-- The segments have the identifiers of the constraints, each as often as the problem. -/
theorem map_id_perm (h : Assembled p q r) :
    ((r.equalities ++ r.cones).map Segment.id).Perm (p.constraints.map Constraint.id) := by
  rw [h.equalities, h.cones, ← List.map_append, List.map_map]
  exact (Problem.zero_append_cone_perm h.supported).map Constraint.id

theorem fits (h : Assembled p q r) {raw : RawResult α} (hx : raw.x.length = r.varSize)
    (hy : raw.y.length = q.a.nrows) (hz : raw.z.length = q.g.nrows) : raw.Fits r where
  primal := hx
  equality_duals := by
    rw [hy, h.equalities, map_size_ofConstraint]
    exact h.ownsRows_equalities.fits.nrows_eq
  cone_duals := by
    rw [hz, h.cones, map_size_ofConstraint]
    exact h.ownsRows_cones.fits.nrows_eq

/-- The dual values are the pieces along the rows of the constraints, when their identifiers
differ. -/
theorem find?_dualsOf (h : Assembled p q r) (hnd : (p.constraints.map Constraint.id).Nodup)
    {y z d : DenseVector α} {id : ConstrId} : (r.dualsOf y z).find? id = some d ↔
      (id, d) ∈ Segment.pieces ((p.ofKind .zero).map .ofConstraint) y ++
        Segment.pieces (p.coneConstraints.map .ofConstraint) z := by
  rw [Recovery.find?_dualsOf (h.map_id_perm.nodup_iff.2 hnd), h.equalities, h.cones]

theorem mem_keys_dualsOf (h : Assembled p q r) (hnd : (p.constraints.map Constraint.id).Nodup)
    {y z : DenseVector α} {id : ConstrId} :
    id ∈ (r.dualsOf y z).keys ↔ id ∈ p.constraints.map Constraint.id := by
  -- the identifiers of the pieces are those of the segments
  have hids : (Segment.pieces ((p.ofKind .zero).map .ofConstraint) y ++
      Segment.pieces (p.coneConstraints.map .ofConstraint) z).map Prod.fst =
        (r.equalities ++ r.cones).map Segment.id := by
    rw [List.map_append, Segment.map_fst_pieces, Segment.map_fst_pieces, ← List.map_append,
      h.equalities, h.cones]
  rw [SortedMap.mem_keys_iff, Option.isSome_iff_exists, ← h.map_id_perm.mem_iff, ← hids,
    List.mem_map]
  constructor
  · rintro ⟨d, hd⟩
    exact ⟨(id, d), (h.find?_dualsOf hnd).1 hd, rfl⟩
  · rintro ⟨⟨_, d⟩, hd, rfl⟩
    exact ⟨d, (h.find?_dualsOf hnd).2 hd⟩

theorem ownsDuals_equalities (h : Assembled p q r) (hnd : (p.constraints.map Constraint.id).Nodup)
    {y : DenseVector α} (hy : y.length = q.a.nrows) (z : DenseVector α) :
    OwnsDuals (p.ofKind .zero) y (r.dualsOf y z) :=
  ownsDuals_of_mem (hy.trans h.ownsRows_equalities.fits.nrows_eq) fun _ _ hd =>
    (h.find?_dualsOf hnd).2 (List.mem_append_left _ hd)

theorem ownsDuals_cones (h : Assembled p q r) (hnd : (p.constraints.map Constraint.id).Nodup)
    (y : DenseVector α) {z : DenseVector α} (hz : z.length = q.g.nrows) :
    OwnsDuals p.coneConstraints z (r.dualsOf y z) :=
  ownsDuals_of_mem (hz.trans h.ownsRows_cones.fits.nrows_eq) fun _ _ hd =>
    (h.find?_dualsOf hnd).2 (List.mem_append_right _ hd)

/-- Under the identifier of a constraint there is a dual value, as long as a constraint with that
identifier is large. -/
theorem exists_dual_of_id (h : Assembled p q r) {y z : DenseVector α} (hy : y.length = q.a.nrows)
    (hz : z.length = q.g.nrows) {c : Constraint α} (hc : c ∈ p.constraints) :
    ∃ d, (r.dualsOf y z).find? c.id = some d ∧
      ∃ c' ∈ p.constraints, c'.id = c.id ∧ d.length = c'.size := by
  have hkey : c.id ∈ (r.equalities ++ r.cones).map Segment.id :=
    h.map_id_perm.mem_iff.2 (List.mem_map_of_mem hc)
  obtain ⟨d, hd, hpiece⟩ := Recovery.exists_find?_dualsOf hkey y z
  refine ⟨d, hd, ?_⟩
  have howner : ∀ {cs : List (Constraint α)} {v : DenseVector α},
      v.length = (cs.map Constraint.size).sum → (∀ c' ∈ cs, c' ∈ p.constraints) →
      (c.id, d) ∈ Segment.pieces (cs.map .ofConstraint) v →
        ∃ c' ∈ p.constraints, c'.id = c.id ∧ d.length = c'.size := by
    intro cs v hlen hcs hmem
    obtain ⟨s, hs, hid, hsize⟩ :=
      Segment.length_of_mem_pieces (by rw [map_size_ofConstraint, hlen]) hmem
    obtain ⟨c', hc', rfl⟩ := List.mem_map.1 hs
    exact ⟨c', hcs c' hc', hid, hsize⟩
  have hperm := Problem.zero_append_cone_perm h.supported
  rw [h.equalities, h.cones, List.mem_append] at hpiece
  rcases hpiece with hpiece | hpiece
  · exact howner (hy.trans h.ownsRows_equalities.fits.nrows_eq)
      (fun c' hc' => hperm.subset (List.mem_append_left _ hc')) hpiece
  · exact howner (hz.trans h.ownsRows_cones.fits.nrows_eq)
      (fun c' hc' => hperm.subset (List.mem_append_right _ hc')) hpiece

/-- Every constraint of the problem has a dual value as long as it is large. -/
theorem exists_dual (h : Assembled p q r) (hnd : (p.constraints.map Constraint.id).Nodup)
    {y z : DenseVector α} (hy : y.length = q.a.nrows) (hz : z.length = q.g.nrows) {c : Constraint α}
    (hc : c ∈ p.constraints) : ∃ d, (r.dualsOf y z).find? c.id = some d ∧ d.length = c.size := by
  obtain ⟨d, hd, c', hc', hid, hlen⟩ := h.exists_dual_of_id hy hz hc
  obtain rfl : c' = c := List.inj_on_of_nodup_map hnd hc' hc hid
  exact ⟨d, hd, hlen⟩

end Assembled

/-- Rows and duals of a constraint belong together. The segments of the recovery are the constraints
kind after kind, and every constraint owns its rows. When the identifiers differ, a fitting result
with a solution gives every constraint a dual value and nothing else, the entries that lie along its
rows. -/
theorem Problem.owned_of_toConeProgram [Zero α] [One α] [Add α] [Mul α] [Neg α] {p : Problem α}
    {q : ConeProgram α} {r : Recovery α} (h : p.toConeProgram = .ok (q, r)) :
    r.equalities = (p.ofKind .zero).map .ofConstraint ∧
      r.cones = (p.ofKind .nonpos ++ p.ofKind .secondOrder ++ p.ofKind .exponential).map
        .ofConstraint ∧
      (p.ofKind .zero ++ p.coneConstraints).Perm p.constraints ∧
      OwnsRows (p.ofKind .zero) r.block ⟨q.a, q.b⟩ ∧
      OwnsRows p.coneConstraints r.block ⟨q.g, q.h⟩ ∧
      ((p.constraints.map Constraint.id).Nodup → ∀ raw : RawResult α, raw.HasSolution →
        raw.x.length = r.varSize → raw.y.length = q.a.nrows → raw.z.length = q.g.nrows →
        ∃ s duals, r.solution raw = .ok s ∧ s.duals = some duals ∧
          (∀ id, id ∈ duals.keys ↔ id ∈ p.constraints.map Constraint.id) ∧
          OwnsDuals (p.ofKind .zero) raw.y duals ∧ OwnsDuals p.coneConstraints raw.z duals) := by
  have ha := toConeProgram_eq_ok h
  refine ⟨ha.equalities, ha.cones, zero_append_cone_perm ha.supported, ha.ownsRows_equalities,
    ha.ownsRows_cones, ?_⟩
  intro hnd raw hsol hx hy hz
  obtain ⟨s, hs, _, _, hduals⟩ :=
    Recovery.solution_eq_ok hsol (ha.fits hx hy hz) ha.three_dvd_size
  exact ⟨s, r.dualsOf raw.y raw.z, hs, hduals, fun _ => ha.mem_keys_dualsOf hnd,
    ha.ownsDuals_equalities hnd hy raw.z, ha.ownsDuals_cones hnd raw.y hz⟩

/-- A result of `Problem.everyKind` whose dual entries tell their rows. -/
def RawResult.numbered : RawResult Int where
  x := [4, 0, -1]
  y := [1, 2]
  z := [11, 12, 13, 21, 22, 23, 31, 32, 33, 41, 42, 43, 51, 52, 53]
  exitCode := 0
  primalCost := 3
  dualCost := 3
  iterations := 1
  setupTime := 0
  solveTime := 0

theorem RawResult.numbered_hasSolution : numbered.HasSolution := ⟨_, rfl, rfl⟩

theorem Problem.everyKind_owned :
    ∃ q r, everyKind.toConeProgram = .ok (q, r) ∧ (everyKind.constraints.map Constraint.id).Nodup ∧
      OwnsRows (everyKind.ofKind .zero) r.block ⟨q.a, q.b⟩ ∧
      OwnsRows everyKind.coneConstraints r.block ⟨q.g, q.h⟩ ∧
      ∃ s duals, r.solution RawResult.numbered = .ok s ∧ s.duals = some duals ∧
        (∀ id, id ∈ duals.keys ↔ id ∈ everyKind.constraints.map Constraint.id) ∧
        OwnsDuals (everyKind.ofKind .zero) RawResult.numbered.y duals ∧
        OwnsDuals everyKind.coneConstraints RawResult.numbered.z duals := by
  have hnd : (everyKind.constraints.map Constraint.id).Nodup := by decide
  obtain ⟨q, r, h, _, hx, hy, hz⟩ := everyKind_toConeProgram
  obtain ⟨_, _, _, hrows, hcones, hduals⟩ := owned_of_toConeProgram h
  exact ⟨q, r, h, hnd, hrows, hcones,
    hduals hnd _ RawResult.numbered_hasSolution hx.symm hy.symm hz.symm⟩

end Conic
