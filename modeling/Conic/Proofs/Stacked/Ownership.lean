import Conic.Proofs.ConeProgram.Shape
import Conic.Proofs.ConeProgram.Stacks
import Mathlib.Data.List.SplitLengths

/-!
# The stack of a problem

A problem goes to the bundled solver through two changes of order. Its exponential arguments are put
into row order, and the rows of the program into the order of the stack; multipliers come back
through the inverses of both. All of it cancels: the rows of an exponential constraint stand in the
stack in the order of its arguments, and the dual values of the constraints, one after the other,
are the multipliers of the stack (`Segment.pieces_swapAfter`, `Assembled.hasTriples`).
-/

namespace Conic

variable {α : Type}

/-! ## Pieces without exchange -/

theorem splitLengths_append {β : Type} {sizes : List Nat} {v : List β} (h : v.length = sizes.sum)
    (others : List Nat) (w : List β) :
    (sizes ++ others).splitLengths (v ++ w) = sizes.splitLengths v ++ others.splitLengths w := by
  induction sizes generalizing v with
  | nil =>
    obtain rfl : v = [] := List.length_eq_zero_iff.1 h
    rfl
  | cons n sizes ih =>
    rw [List.sum_cons] at h
    rw [List.cons_append, List.splitLengths_cons, List.splitLengths_cons, List.cons_append,
      List.take_append_of_le_length (by omega), List.drop_append_of_le_length (by omega),
      ih (by rw [List.length_drop]; omega)]

namespace Segment

/-- Segments without exponential cones get their slices as they are. -/
theorem pieces_of_plain {segments : List Segment} (h : ∀ s ∈ segments, s.kind ≠ .exponential)
    (v : DenseVector α) :
    pieces segments v = (segments.map id).zip ((segments.map size).splitLengths v) := by
  induction segments generalizing v with
  | nil => rfl
  | cons s rest ih =>
    rw [pieces, reading, if_neg (h s List.mem_cons_self),
      ih fun t ht => h t (List.mem_cons_of_mem _ ht), List.map_cons, List.map_cons,
      List.splitLengths_cons, List.zip_cons_cons]

/-- Segments of exponential cones undo an exchange of the whole vector. -/
theorem pieces_swapTriples {segments : List Segment} (h : ∀ s ∈ segments, s.kind = .exponential)
    (htriple : ∀ s ∈ segments, 3 ∣ s.size) {v : DenseVector α}
    (hlen : v.length = (segments.map size).sum) :
    pieces segments (swapTriples v) =
      (segments.map id).zip ((segments.map size).splitLengths v) := by
  induction segments generalizing v with
  | nil => rfl
  | cons s rest ih =>
    rw [List.map_cons, List.sum_cons] at hlen
    have htake : (v.take s.size).length = s.size := by
      rw [List.length_take]
      omega
    have hsplit : swapTriples v = swapTriples (v.take s.size) ++ swapTriples (v.drop s.size) := by
      rw [← swapTriples_append (by rw [htake]; exact htriple s List.mem_cons_self),
        List.take_append_drop]
    have hhead : (swapTriples (v.take s.size)).length = s.size := by
      rw [length_swapTriples, htake]
    have hrest := ih (v := v.drop s.size) (fun t ht => h t (List.mem_cons_of_mem _ ht))
      (fun t ht => htriple t (List.mem_cons_of_mem _ ht)) (by rw [List.length_drop]; omega)
    rw [pieces, reading, if_pos (h s List.mem_cons_self), hsplit, List.take_left' hhead,
      List.drop_left' hhead, swapTriples_swapTriples, hrest, List.map_cons, List.map_cons,
      List.splitLengths_cons, List.zip_cons_cons]

theorem pieces_append {segments : List Segment} (others : List Segment) {v : DenseVector α}
    (hlen : v.length = (segments.map size).sum) (w : DenseVector α) :
    pieces (segments ++ others) (v ++ w) = pieces segments v ++ pieces others w := by
  induction segments generalizing v with
  | nil =>
    obtain rfl : v = [] := List.length_eq_zero_iff.1 hlen
    rfl
  | cons s rest ih =>
    rw [List.map_cons, List.sum_cons] at hlen
    rw [List.cons_append, pieces, pieces, List.take_append_of_le_length (by omega),
      List.drop_append_of_le_length (by omega), ih (by rw [List.length_drop]; omega)]
    rfl

/-- Reading duals back cancels the exchange of triples, when the exponential segments come last. -/
theorem pieces_swapAfter {plain exps : List Segment} (hplain : ∀ s ∈ plain, s.kind ≠ .exponential)
    (hexps : ∀ s ∈ exps, s.kind = .exponential) (htriple : ∀ s ∈ exps, 3 ∣ s.size)
    {v : DenseVector α} (hlen : v.length = ((plain ++ exps).map size).sum) :
    pieces (plain ++ exps) (swapAfter (plain.map size).sum v) =
      ((plain ++ exps).map id).zip (((plain ++ exps).map size).splitLengths v) := by
  rw [List.map_append, List.sum_append] at hlen
  have htake : (v.take (plain.map size).sum).length = (plain.map size).sum := by
    rw [List.length_take]
    omega
  have hdrop : (v.drop (plain.map size).sum).length = (exps.map size).sum := by
    rw [List.length_drop]
    omega
  have hids : (plain.map id).length =
      ((plain.map size).splitLengths (v.take (plain.map size).sum)).length := by simp
  have hsplit := splitLengths_append htake (exps.map size) (v.drop (plain.map size).sum)
  rw [List.take_append_drop] at hsplit
  rw [swapAfter, pieces_append exps htake, pieces_of_plain hplain,
    pieces_swapTriples hexps htriple hdrop, List.map_append, List.map_append, hsplit,
    List.zip_append hids]

end Segment

/-! ## The constraints in the order of the stack -/

namespace Problem

/-- The constraints in the order of the rows, equalities first. -/
def rowConstraints (p : Problem α) : List (Constraint α) := p.ofKind .zero ++ p.coneConstraints

/-- The constraints whose rows have the same place in program and stack. -/
def plainConstraints (p : Problem α) : List (Constraint α) :=
  p.ofKind .zero ++ p.ofKind .nonpos ++ p.ofKind .secondOrder

theorem rowConstraints_eq (p : Problem α) :
    p.rowConstraints = p.plainConstraints ++ p.ofKind .exponential := by
  simp only [rowConstraints, coneConstraints, plainConstraints, List.append_assoc]

theorem kind_of_mem_plainConstraints {p : Problem α} {c : Constraint α}
    (h : c ∈ p.plainConstraints) : c.kind ≠ .exponential := by
  rw [plainConstraints, List.mem_append, List.mem_append] at h
  rcases h with (h | h) | h
  all_goals rw [kind_of_mem_ofKind h]; exact nofun

end Problem

namespace Assembled

variable [Zero α] [One α] [Add α] [Mul α] [Neg α] {p : Problem α} {q : ConeProgram α}
    {r : Recovery α}

theorem stackRows_eq (h : Assembled p q r) :
    q.stackRows = (p.rowConstraints.map Constraint.size).sum := by
  rw [ConeProgram.stackRows, h.ownsRows_equalities.fits.nrows_eq, h.ownsRows_cones.fits.nrows_eq,
    Problem.rowConstraints, List.map_append, List.sum_append]

theorem firstTriple_eq (h : Assembled p q r) :
    q.firstTriple = (p.plainConstraints.map Constraint.size).sum := by
  have hexp : ((p.ofKind .exponential).map Constraint.size).sum = 3 * q.dims.exponential := by
    rw [h.dims]
    exact sum_size_of_exponential fun c hc => Problem.kind_of_mem_ofKind hc
  rw [ConeProgram.firstTriple, h.stackRows_eq, p.rowConstraints_eq, List.map_append,
    List.sum_append, hexp, Nat.add_sub_cancel]

/-- The pieces of the duals that come back from the stack are the slices of its multipliers. -/
theorem pieces_of_stack (h : Assembled p q r) {multipliers y z : DenseVector α}
    (hlen : multipliers.length = q.stackRows)
    (hsplit : swapAfter q.firstTriple multipliers = y ++ z) (hy : y.length = q.a.nrows) :
    Segment.pieces ((p.ofKind .zero).map .ofConstraint) y ++
        Segment.pieces (p.coneConstraints.map .ofConstraint) z =
      (p.rowConstraints.map Constraint.id).zip
        ((p.rowConstraints.map Constraint.size).splitLengths multipliers) := by
  have hequalities : y.length =
      (((p.ofKind .zero).map Segment.ofConstraint).map Segment.size).sum := by
    rw [map_size_ofConstraint, hy]
    exact h.ownsRows_equalities.fits.nrows_eq
  have hsizes : multipliers.length = ((p.plainConstraints.map Segment.ofConstraint ++
      (p.ofKind .exponential).map Segment.ofConstraint).map Segment.size).sum := by
    rw [hlen, h.stackRows_eq, p.rowConstraints_eq, ← List.map_append, map_size_ofConstraint]
  have hplain : ∀ s ∈ p.plainConstraints.map Segment.ofConstraint, s.kind ≠ .exponential := by
    intro s hs
    obtain ⟨c, hc, rfl⟩ := List.mem_map.1 hs
    exact Problem.kind_of_mem_plainConstraints hc
  have hexps : ∀ s ∈ (p.ofKind .exponential).map Segment.ofConstraint,
      s.kind = .exponential ∧ 3 ∣ s.size := by
    intro s hs
    obtain ⟨c, hc, rfl⟩ := List.mem_map.1 hs
    have hkind := Problem.kind_of_mem_ofKind hc
    exact ⟨hkind, Constraint.three_dvd_size hkind⟩
  have hpieces := Segment.pieces_swapAfter hplain (fun s hs => (hexps s hs).1)
    (fun s hs => (hexps s hs).2) hsizes
  rw [map_size_ofConstraint, ← h.firstTriple_eq, ← List.map_append, ← p.rowConstraints_eq,
    map_size_ofConstraint, List.map_map] at hpieces
  rw [← Segment.pieces_append _ hequalities, ← List.map_append, ← hsplit]
  exact hpieces

end Assembled

/-! ## The rows of exponential constraints -/

namespace RowBlock

variable [One α] [Mul α] [Neg α]

/-- A row of the block is row `i` of an expression, its coefficients times minus one against its
constant. -/
def HasSlackRow (block : RowBlock α) (row : Nat) (rows : RowBlock α) (i : Nat) : Prop :=
  (∀ col, block.matrix.get? row col = (rows.matrix.get? i col).map (· * -1)) ∧
    block.offset[row]? = rows.offset[i]?

/-- From its row `first` on, the block has cone by cone the rows of the three arguments, in their
order. -/
def HasTriples (block : RowBlock α) (first : Nat) (v : Variable) (x y z : AffineExpr α) : Prop :=
  ∃ rx ry rz, x.rowsOver v = .ok rx ∧ y.rowsOver v = .ok ry ∧ z.rowsOver v = .ok rz ∧
    ∀ j < x.size, block.HasSlackRow (first + 3 * j) rx j ∧
      block.HasSlackRow (first + 3 * j + 1) ry j ∧ block.HasSlackRow (first + 3 * j + 2) rz j

theorem Holds.hasSlackRow {inner rows : RowBlock α} {places : List Nat}
    (h : inner.Holds rows places) {i row : Nat} (hrow : places[i]? = some row) :
    (slack inner).HasSlackRow row rows i := by
  obtain ⟨hmatrix, hoffset⟩ := h i row hrow
  refine ⟨fun col => ?_, hoffset⟩
  rw [slack, SparseMatrix.neg, SparseMatrix.scale, SparseMatrix.get?_mapValues, hmatrix]

theorem HasSlackRow.of_rowEq {a b rows : RowBlock α} {i j k : Nat} (h : a.HasSlackRow i rows k)
    (heq : b.RowEq j a i) : b.HasSlackRow j rows k :=
  ⟨fun col => (heq.1 col).trans (h.1 col), heq.2.trans h.2⟩

end RowBlock

/-- The rows of a stacked program with their right-hand sides. -/
def StackedProgram.block (s : StackedProgram α) : RowBlock α := ⟨s.matrix, s.rhs⟩

theorem firstRow_append (cs ds : List (Constraint α)) (k : Nat) :
    firstRow (cs ++ ds) (cs.length + k) = (cs.map Constraint.size).sum + firstRow ds k := by
  rw [firstRow, List.take_length_add_append, List.map_append, List.sum_append, firstRow]

/-- Row `row` of the stack is row `source` of the program, equalities and cone rows taken
together. -/
theorem ConeProgram.stack_row [Zero α] [Add α] {p : ConeProgram α} (hp : p.Stackable)
    {row source : Nat} (h : p.rowOrder[row]? = some source) :
    p.stacked.block.RowEq row (.stack [⟨p.a, p.b⟩, ⟨p.g, p.h⟩] p.numVars) source := by
  constructor
  · intro col
    show (SparseMatrix.selectRows _ p.rowOrder).get? row col = _
    rw [SparseMatrix.get?_selectRows, h]
    rfl
  · have hlt : source < (p.b ++ p.h).length := by
      rw [length_append_rows hp.length_b hp.length_h]
      exact hp.holdsTriples.lt_of_mem_rowOrder (List.mem_of_getElem? h)
    have hoffset : (RowBlock.stack [⟨p.a, p.b⟩, ⟨p.g, p.h⟩] p.numVars).offset = p.b ++ p.h := by
      simp [RowBlock.stack]
    show (p.rowOrder.map (p.b ++ p.h).entry)[row]? = _
    rw [List.getElem?_map, h, hoffset, Option.map_some, DenseVector.some_entry hlt]

namespace Assembled

variable [Zero α] [One α] [Add α] [Mul α] [Neg α] {p : Problem α} {q : ConeProgram α}
    {r : Recovery α}

/-- The constraints own the rows of the program, equalities and cone rows taken together. -/
theorem ownsRows (h : Assembled p q r) :
    OwnsRows p.rowConstraints r.block (.stack [⟨q.a, q.b⟩, ⟨q.g, q.h⟩] q.numVars) := by
  have hwidth : q.numVars = r.block.size := h.agrees.length_c
  rw [hwidth]
  exact ownsRows_of_stackedRows
    (Constraint.stackedRows_append_eq_ok h.equality_rows h.cone_rows)

/-- An exponential constraint begins with a full triple behind the rows that stay. -/
theorem exists_firstRow_eq (h : Assembled p q r) {k : Nat} (hk : k < p.rowConstraints.length)
    (hkind : p.rowConstraints[k].kind = .exponential) :
    ∃ m, firstRow p.rowConstraints k = q.firstTriple + 3 * m := by
  have hplain : p.plainConstraints.length ≤ k := by
    by_contra hle
    have hlt : k < p.plainConstraints.length := by omega
    have hget : p.rowConstraints[k] = p.plainConstraints[k] := by
      simp only [p.rowConstraints_eq]
      exact List.getElem_append_left hlt
    rw [hget] at hkind
    exact Problem.kind_of_mem_plainConstraints (List.getElem_mem _) hkind
  obtain ⟨j, rfl⟩ := Nat.exists_eq_add_of_le hplain
  refine ⟨(((p.ofKind .exponential).take j).map (·.condition.numCones)).sum, ?_⟩
  rw [p.rowConstraints_eq, firstRow_append, h.firstTriple_eq, firstRow,
    sum_size_of_exponential fun c hc => Problem.kind_of_mem_ofKind (List.mem_of_mem_take hc)]

theorem hasTriples (h : Assembled p q r) {k : Nat} (hk : k < p.rowConstraints.length)
    {x y z : AffineExpr α} {hy : y.size = x.size} {hz : z.size = x.size}
    (hc : p.rowConstraints[k].condition = .exponential x y z hy hz) :
    q.stacked.block.HasTriples (firstRow p.rowConstraints k) r.block x y z := by
  have hkind : p.rowConstraints[k].kind = .exponential := by
    rw [Constraint.kind, hc]
    rfl
  have hsize : p.rowConstraints[k].size = 3 * x.size := by
    rw [Constraint.size, hc, Condition.size_exponential]
  have hp := h.agrees.stackable
  obtain ⟨m, hfirst⟩ := h.exists_firstRow_eq hk hkind
  obtain ⟨block, hblock, -, hrows⟩ := h.ownsRows.block k hk
  obtain ⟨inner, rx, ry, rz, rfl, -, hrx, hxHolds, hry, hyHolds, hrz, hzHolds⟩ :=
    Constraint.rows_exponential standard_isPermutation hc hblock
  -- argument `i` of cone `j` stands in the stack where its row of the block was taken from
  have hstack : ∀ {rows : RowBlock α} {j : Nat} (i : Nat), j < x.size → i < 3 →
      (RowBlock.slack inner).HasSlackRow (3 * j + ExpOrder.standard.rows.getD i 0) rows j →
        q.stacked.block.HasSlackRow (firstRow p.rowConstraints k + 3 * j + i) rows j := by
    intro rows j i hj hi hrow
    have hargument := ExpOrder.standard_rows_lt hi
    have hinside : firstRow p.rowConstraints k + 3 * x.size ≤ q.stackRows := by
      rw [← hsize, h.stackRows_eq]
      exact firstRow_add_size_le hk
    have hsource : q.rowOrder[firstRow p.rowConstraints k + 3 * j + i]? =
        some (firstRow p.rowConstraints k + (3 * j + ExpOrder.standard.rows.getD i 0)) := by
      rw [hfirst, Nat.add_assoc q.firstTriple, ← Nat.mul_add,
        hp.holdsTriples.getElem?_rowOrder (m + j) hi (by omega)]
      congr 1
      omega
    have hstackRow := ConeProgram.stack_row hp hsource
    exact hrow.of_rowEq
      (hstackRow.trans (hrows (3 * j + ExpOrder.standard.rows.getD i 0) (by omega)))
  refine ⟨rx, ry, rz, hrx, hry, hrz, fun j hj => ⟨?_, ?_, ?_⟩⟩
  · have hfirstRow := hstack 0 hj (by omega) (hxHolds.hasSlackRow (getElem?_tripleRows hj))
    rwa [Nat.add_zero] at hfirstRow
  · exact hstack 1 hj (by omega) (hyHolds.hasSlackRow (getElem?_tripleRows hj))
  · exact hstack 2 hj (by omega) (hzHolds.hasSlackRow (getElem?_tripleRows hj))

end Assembled

/-! ## Both ways -/

/-- The two orders of exponential rows cancel. Multipliers of the stack, one for each of its rows,
become duals of the program, and a result with these duals and a solution is read back into slices
of the multipliers: the dual values of the constraints, equalities first and then kind after kind,
are the multipliers cut at the sizes of the constraints. And where the slice of an exponential
constraint lies, the stack has the rows of its arguments, cone by cone in their order. In memory,
this is the stack that is computed. -/
theorem Problem.stack_of_toConeProgram [Zero α] [One α] [Add α] [Mul α] [Neg α] {p : Problem α}
    {q : ConeProgram α} {r : Recovery α} (h : p.toConeProgram = .ok (q, r))
    (hnd : (p.constraints.map Constraint.id).Nodup) {multipliers : DenseVector α}
    (hlen : multipliers.length = q.stacked.matrix.nrows) :
    (∃ y z, q.unstackDuals multipliers = .ok (y, z) ∧
      (∀ o : SolverOutcome α, o.z = multipliers → o.x.length = q.numVars →
        ∃ raw, o.rawResult q = .ok raw ∧ raw.exitCode = o.verdict.exitCode ∧
          raw.x = o.x ∧ raw.y = y ∧ raw.z = z) ∧
      ∀ raw : RawResult α, raw.HasSolution → raw.x.length = r.varSize → raw.y = y → raw.z = z →
        ∃ s duals, ∃ slices : List (DenseVector α), r.solution raw = .ok s ∧ s.duals = some duals ∧
          p.rowConstraints.map (duals.find? ·.id) = slices.map some ∧
          slices.map List.length = p.rowConstraints.map Constraint.size ∧
          slices.flatten = multipliers) ∧
    (∀ k (hk : k < p.rowConstraints.length) (x y z : AffineExpr α) hy hz,
      p.rowConstraints[k].condition = .exponential x y z hy hz →
        q.stacked.block.HasTriples (firstRow p.rowConstraints k) r.block x y z) ∧
    (q.InMemory → q.stacked? = some q.stacked) := by
  have ha := toConeProgram_eq_ok h
  have hq := ha.agrees.stackable
  have hrows : multipliers.length = q.stackRows :=
    hlen.trans (ConeProgram.stacked_nrows hq.holdsTriples)
  obtain ⟨y, z, hduals, hsplit, hy, hz⟩ := ConeProgram.exists_unstackDuals hq.holdsTriples hrows
  refine ⟨⟨y, z, hduals, ?_, ?_⟩, fun k hk x y z hy hz hc => ha.hasTriples hk hc, hq.stacked?_eq⟩
  · rintro o rfl hx
    exact ConeProgram.rawResult_eq_ok hq.holdsTriples hx hrows hduals
  · rintro raw hsol hx rfl rfl
    obtain ⟨s, hs, _, _, hfound⟩ :=
      Recovery.solution_eq_ok hsol (ha.fits hx hy hz) ha.three_dvd_size
    have hsizes : multipliers.length = (p.rowConstraints.map Constraint.size).sum := by
      rw [hrows, ha.stackRows_eq]
    refine ⟨s, r.dualsOf raw.y raw.z,
      (p.rowConstraints.map Constraint.size).splitLengths multipliers,
      hs, hfound, ?_, List.map_splitLengths_length _ _ hsizes.ge,
      List.flatten_splitLengths _ _ hsizes.le⟩
    have hids : (p.rowConstraints.map Constraint.id).length =
        ((p.rowConstraints.map Constraint.size).splitLengths multipliers).length := by simp
    have hmap := SortedMap.map_find?_eq (m := r.dualsOf raw.y raw.z) hids <| by
      rintro ⟨id, d⟩ hd
      rw [← ha.pieces_of_stack hrows hsplit hy] at hd
      exact (ha.find?_dualsOf hnd).2 hd
    rwa [List.map_map] at hmap

theorem Problem.everyKind_stack :
    let x : AffineExpr Int := .ofVariable ⟨⟨0⟩, 3, none⟩
    let multipliers : DenseVector Int := RawResult.numbered.y ++ RawResult.numbered.z
    ∃ q r, everyKind.toConeProgram = .ok (q, r) ∧ (everyKind.constraints.map Constraint.id).Nodup ∧
      multipliers.length = q.stacked.matrix.nrows ∧
      (∃ y z, q.unstackDuals multipliers = .ok (y, z) ∧
        ∃ s duals, ∃ slices : List (DenseVector Int),
          r.solution { RawResult.numbered with y, z } = .ok s ∧ s.duals = some duals ∧
            everyKind.rowConstraints.map (duals.find? ·.id) = slices.map some ∧
            slices.map List.length = [1, 1, 3, 6, 3, 3] ∧ slices.flatten = multipliers) ∧
      q.stacked.block.HasTriples 11 r.block (x.pick [0]) (x.pick [1]) (x.pick [2]) ∧
      q.stacked? = some q.stacked := by
  intro x multipliers
  have hnd : (everyKind.constraints.map Constraint.id).Nodup := by decide
  obtain ⟨q, r, h, _, hx, hrows, hcones⟩ := everyKind_toConeProgram
  have hq := (toConeProgram_eq_ok h).agrees.stackable
  have hmemory : q.InMemory :=
    ⟨by rw [hq.length_b, hrows]; decide, by rw [hq.length_h, hcones]; decide⟩
  have hlen : multipliers.length = q.stacked.matrix.nrows := by
    rw [ConeProgram.stacked_nrows hq.holdsTriples, ConeProgram.stackRows, hrows, hcones]
    rfl
  obtain ⟨⟨y, z, hduals, _, hread⟩, htriples, hcomputed⟩ := stack_of_toConeProgram h hnd hlen
  obtain ⟨s, duals, slices, hs, hfound, hslices, hsizes, hflat⟩ :=
    hread { RawResult.numbered with y, z } RawResult.numbered_hasSolution hx.symm rfl rfl
  exact ⟨q, r, h, hnd, hlen, ⟨y, z, hduals, s, duals, slices, hs, hfound, hslices, hsizes, hflat⟩,
    htriples 4 (by decide) _ _ _ rfl rfl rfl, hcomputed hmemory⟩

end Conic
