import Conic.Proofs.ConeProgram.Faults
import Conic.Proofs.ConeProgram.Ownership
import Conic.Proofs.ConeProgram.Picking

/-!
# Constraints of many cones

A constraint of many cones means the same as one constraint for each of its cones. Its rows are
moved to their places all together, those of a single cone are picked out and negated by themselves;
the stack of the single cones is the same block all the same (`stackedRows_pieces`). Their dual
values are cut out one by one and come out as the dual value of the whole constraint, cone after
cone (`Segment.exists_cut`).
-/

namespace Conic

variable {α : Type}

/-! ## Single cones -/

namespace Condition

/-- The number of entries of a cone. -/
def coneSize : Condition α → Nat
  | secondOrder t x _ _ => x.size / t.size + 1
  | exponential .. => 3
  | semidefinite _ dim _ => word (dim * dim)
  | power .. => 3
  | _ => 1

theorem coneSizes_eq (c : Condition α) : c.coneSizes = List.replicate c.numCones c.coneSize := by
  cases c <;> rfl

theorem size_eq (c : Condition α) : c.size = c.numCones * c.coneSize := by
  rw [← sum_coneSizes, coneSizes_eq, List.sum_replicate_nat]

variable [Zero α] [Add α]

/-- Cone `j` of a condition by itself. -/
def cone (c : Condition α) (j : Nat) : Condition α :=
  match c with
  | zero e => zero (e.pick [j])
  | nonpos e => nonpos (e.pick [j])
  | nonneg e => nonneg (e.pick [j])
  | secondOrder t x _ _ =>
    secondOrder (t.pick [j]) (x.pick (run (x.size / t.size) j)) (by simp) (by simp)
  | exponential x y z _ _ => exponential (x.pick [j]) (y.pick [j]) (z.pick [j]) (by simp) (by simp)
  | power x y z alpha _ _ inside =>
    power (x.pick [j]) (y.pick [j]) (z.pick [j]) alpha (by simp) (by simp) inside
  | semidefinite e dim square => semidefinite e dim square

@[simp] theorem kind_cone (c : Condition α) (j : Nat) : (c.cone j).kind = c.kind := by
  cases c <;> rfl

@[simp] theorem numCones_cone (c : Condition α) (j : Nat) : (c.cone j).numCones = 1 := by
  cases c <;> simp [cone, numCones]

@[simp] theorem coneSize_cone (c : Condition α) (j : Nat) : (c.cone j).coneSize = c.coneSize := by
  cases c <;> simp [cone, coneSize]

theorem size_cone (c : Condition α) (j : Nat) : (c.cone j).size = c.coneSize := by
  rw [size_eq, numCones_cone, coneSize_cone, Nat.one_mul]

end Condition

namespace Constraint

section Pieces

variable [Zero α] [Add α]

/-- The cones of a constraint as constraints of their own, each made by its constructor. Kinds
without rows are left as they are. -/
def split (c : Constraint α) : Build (List (Constraint α)) :=
  match c.condition with
  | .zero e => (List.range e.size).mapM fun j => do zero (← Build.lift (e.index j))
  | .nonpos e => (List.range e.size).mapM fun j => do nonpos (← Build.lift (e.index j))
  | .secondOrder t x _ _ =>
    (List.range t.size).mapM fun j => do
      soc (← Build.lift (t.index j)) (← Build.lift (x.select (run (x.size / t.size) j)))
  | .exponential x y z _ _ =>
    (List.range x.size).mapM fun j => do
      expCone (← Build.lift (x.index j)) (← Build.lift (y.index j)) (← Build.lift (z.index j))
  | _ => pure [c]

/-- The cones of a condition under identifiers from `next` on. -/
def pieces (c : Condition α) (next : Nat) : List (Constraint α) :=
  (List.range c.numCones).map fun j => ⟨⟨next + j⟩, c.cone j⟩

theorem flatMap_coneSizes_pieces (c : Condition α) (next : Nat) :
    (pieces c next).flatMap (·.condition.coneSizes) = c.coneSizes := by
  have hcone : ∀ j, (c.cone j).coneSizes = [c.coneSize] := by
    intro j
    rw [Condition.coneSizes_eq, Condition.numCones_cone, Condition.coneSize_cone]
    rfl
  rw [pieces, List.flatMap_map, c.coneSizes_eq]
  simp only [hcone]
  rw [← List.map_eq_flatMap, List.map_const', List.length_range]

theorem sum_size_pieces (c : Condition α) (next : Nat) :
    ((pieces c next).map size).sum = c.size := by
  rw [← sum_flatMap_coneSizes, flatMap_coneSizes_pieces, c.sum_coneSizes]

theorem nodup_map_id_pieces (c : Condition α) (next : Nat) : ((pieces c next).map id).Nodup := by
  rw [pieces, List.map_map]
  refine List.nodup_range.map fun i j hij => ?_
  have hindex : next + i = next + j := congrArg ConstrId.index hij
  omega

omit [Zero α] [Add α] in
/-- Steps that each give a condition an identifier draw one identifier after the other. -/
theorem mapM_ofCondition {n : Nat} {f : Nat → Build (Constraint α)} {g : Nat → Condition α}
    (h : ∀ j < n, f j = ofCondition (g j)) (s : IdSupply) :
    (List.range n).mapM f s =
      .ok ((List.range n).map fun j => ⟨⟨s.next + j⟩, g j⟩) ⟨s.next + n⟩ := by
  induction n with
  | zero => rfl
  | succ n ih =>
    have hlast : [n].mapM f = do return [← ofCondition (g n)] := by
      rw [List.mapM_cons, h n (by omega)]
      rfl
    -- the last step begins with the supply that the others leave
    rw [List.range_succ, List.mapM_append, hlast, List.map_append]
    show EStateM.bind _ _ s = _
    rw [EStateM.bind, ih fun j hj => h j (by omega)]
    rfl

/-- Splitting succeeds, and takes one identifier for each cone. -/
theorem split_eq_ok {c : Constraint α} (h : c.kind.isSupported) (s : IdSupply) :
    c.split s = .ok (pieces c.condition s.next) ⟨s.next + c.condition.numCones⟩ := by
  have hindex : ∀ {e : AffineExpr α} {j : Nat}, j < e.size → e.index j = .ok (e.pick [j]) :=
    fun hj => AffineExpr.select_eq_ok (by simpa using hj)
  obtain ⟨id, condition⟩ := c
  cases condition with
  | zero e => exact mapM_ofCondition (fun j hj => by rw [hindex hj]; rfl) s
  | nonpos e => exact mapM_ofCondition (fun j hj => by rw [hindex hj]; rfl) s
  | secondOrder t x pos dvd =>
    refine mapM_ofCondition (fun j hj => ?_) s
    have hselect : x.select (run (x.size / t.size) j) = .ok (x.pick (run (x.size / t.size) j)) :=
      AffineExpr.select_eq_ok fun i hi => by
        rw [← Nat.mul_div_cancel' dvd]
        exact lt_of_mem_run hj hi
    simp only [hindex hj, hselect, Build.lift, pure_bind]
    rw [soc, if_pos (by simp), socColumns, dif_pos (by simp)]
    rfl
  | exponential x y z hy hz =>
    refine mapM_ofCondition (fun j hj => ?_) s
    simp only [hindex hj, hindex (hy ▸ hj), hindex (hz ▸ hj), Build.lift, pure_bind]
    rw [expCone, dif_pos (by simp)]
    rfl
  | nonneg e => cases h
  | semidefinite e dim square => cases h
  | power x y z alpha hy hz inside => cases h

end Pieces

end Constraint

/-! ## The rows of single cones -/

namespace RowBlock

variable [Zero α] [Add α]

/-- Where a picked row of an expression and the row itself were placed, there are equal rows. -/
theorem Holds.rowEq_of_pick {whole part rows : RowBlock α} {places places' indices : List Nat}
    {nrows ncols : Nat} (h : whole.Holds rows places) (h' : part.Holds (rows.pick indices) places')
    (hrows : rows.Fits nrows ncols) {i k row row' : Nat} (hk : indices[i]? = some k)
    (hlt : k < nrows) (hrow : places[k]? = some row) (hrow' : places'[i]? = some row') :
    part.RowEq row' whole row :=
  RowEq.trans (h' i row' hrow') (RowEq.trans (rowEq_pick hrows hk hlt) (RowEq.symm (h k row hrow)))

end RowBlock

namespace Constraint

variable [Zero α] [One α] [Add α] [Mul α] [Neg α]

theorem isSupported_of_rows {c : Constraint α} {v : Variable} {o : ExpOrder} {block : RowBlock α}
    (h : c.rows v o = .ok block) : c.kind.isSupported := by
  obtain ⟨id, condition⟩ := c
  cases condition with
  | zero e => rfl
  | nonpos e => rfl
  | secondOrder t x pos dvd => rfl
  | exponential x y z hy hz => rfl
  | nonneg e => cases h
  | semidefinite e dim square => cases h
  | power x y z alpha hy hz inside => cases h

/-- A constraint has rows as soon as each of its arguments has. -/
theorem exists_rows {c : Constraint α} (hc : c.kind.isSupported) {v : Variable} {o : ExpOrder}
    (ho : o.IsPermutation) (h : ∀ e ∈ c.condition.args, ∃ rows, e.rowsOver v = .ok rows) :
    ∃ block, c.rows v o = .ok block := by
  rw [← fault?_eq_none, fault?_rows hc v ho, List.findSome?_eq_none_iff]
  exact fun e he => fault?_eq_none.2 (h e he)

omit [One α] [Mul α] in
theorem rows_cone_comparison {e : AffineExpr α} {v : Variable} {block : RowBlock α}
    (h : RowBlock.comparison <$> e.rowsOver v = .ok block) {j : Nat} (hj : j < e.size) :
    RowBlock.comparison <$> (e.pick [j]).rowsOver v = .ok (block.pick (run 1 j)) := by
  obtain ⟨r, hr, rfl⟩ := map_eq_ok.1 h
  have hrun : run 1 j = [j] := by simp [run]
  have hlt : ∀ row ∈ [j], row < r.offset.length := by
    rw [(AffineExpr.rowsOver_fits hr).length_offset]
    simpa using hj
  rw [hrun, ← RowBlock.comparison_pick hlt]
  exact map_eq_ok.2 ⟨_, AffineExpr.rowsOver_pick hr [j], rfl⟩

theorem rows_cone_secondOrder {id id' : ConstrId} {t x : AffineExpr α} {pos : 0 < t.size}
    {dvd : t.size ∣ x.size} {v : Variable} {o : ExpOrder} (ho : o.IsPermutation)
    {block : RowBlock α} (h : rows ⟨id, .secondOrder t x pos dvd⟩ v o = .ok block) {j : Nat}
    (hj : j < t.size) :
    rows ⟨id', (Condition.secondOrder t x pos dvd).cone j⟩ v o =
      .ok (block.pick (run (x.size / t.size + 1) j)) := by
  obtain ⟨inner, rt, rx, rfl, hinner, ht, htHolds, hx, hxHolds⟩ := rows_secondOrder rfl h
  have hpt := AffineExpr.rowsOver_pick ht [j]
  have hpx := AffineExpr.rowsOver_pick hx (run (x.size / t.size) j)
  obtain ⟨block, hblock⟩ := exists_rows (c := ⟨id', (Condition.secondOrder t x pos dvd).cone j⟩)
    rfl ho (by simpa [Condition.cone, Condition.args] using ⟨⟨_, hpt⟩, ⟨_, hpx⟩⟩)
  obtain ⟨part, rt', rx', rfl, hpart, ht', htHolds', hx', hxHolds'⟩ := rows_secondOrder rfl hblock
  cases hpt.symm.trans ht'
  cases hpx.symm.trans hx'
  simp only [AffineExpr.size_pick, length_run, List.length_singleton, Nat.div_one]
    at htHolds' hxHolds'
  rw [size, Condition.size_cone] at hpart
  rw [size, Condition.size_secondOrder] at hinner
  have heq : part = inner.pick (run (x.size / t.size + 1) j) := by
    refine RowBlock.eq_pick_run hinner hpart hj fun row hrow => ?_
    cases row with
    | zero =>
      have hplace : (boundRows 1 (x.size / t.size))[0]? = some 0 := by
        rw [getElem?_boundRows Nat.one_pos, Nat.zero_mul]
      exact htHolds.rowEq_of_pick htHolds' (AffineExpr.rowsOver_fits ht) rfl hj
        (getElem?_boundRows hj) hplace
    | succ r =>
      have hr : r < x.size / t.size := Nat.lt_of_succ_lt_succ hrow
      have hplace := getElem?_bodyRows Nat.one_pos hr
      rw [Nat.zero_mul, Nat.zero_add, Nat.zero_mul, Nat.zero_add, Nat.add_comm] at hplace
      have hplaces := getElem?_bodyRows hj hr
      rw [Nat.add_assoc, Nat.add_comm 1 r] at hplaces
      have hrx := lt_of_mem_run hj (List.mem_of_getElem? (getElem?_run hr))
      rw [Nat.mul_div_cancel' dvd] at hrx
      exact hxHolds.rowEq_of_pick hxHolds' (AffineExpr.rowsOver_fits hx) (getElem?_run hr) hrx
        hplaces
        hplace
  rw [hblock, heq, RowBlock.slack_pick]

theorem rows_cone_exponential {id id' : ConstrId} {x y z : AffineExpr α} {hy : y.size = x.size}
    {hz : z.size = x.size} {v : Variable} {o : ExpOrder} (ho : o.IsPermutation) {block : RowBlock α}
    (h : rows ⟨id, .exponential x y z hy hz⟩ v o = .ok block) {j : Nat} (hj : j < x.size) :
    rows ⟨id', (Condition.exponential x y z hy hz).cone j⟩ v o = .ok (block.pick (run 3 j)) := by
  obtain ⟨inner, rx, ry, rz, rfl, hinner, hrx, hxHolds, hry, hyHolds, hrz, hzHolds⟩ :=
    rows_exponential ho rfl h
  have hpx := AffineExpr.rowsOver_pick hrx [j]
  have hpy := AffineExpr.rowsOver_pick hry [j]
  have hpz := AffineExpr.rowsOver_pick hrz [j]
  obtain ⟨block, hblock⟩ := exists_rows (c := ⟨id', (Condition.exponential x y z hy hz).cone j⟩)
    rfl ho (by simpa [Condition.cone, Condition.args] using ⟨⟨_, hpx⟩, ⟨_, hpy⟩, ⟨_, hpz⟩⟩)
  obtain ⟨part, rx', ry', rz', rfl, hpart, hrx', hxHolds', hry', hyHolds', hrz', hzHolds'⟩ :=
    rows_exponential ho rfl hblock
  cases hpx.symm.trans hrx'
  cases hpy.symm.trans hry'
  cases hpz.symm.trans hrz'
  rw [size, Condition.size_cone] at hpart
  rw [size, Condition.size_exponential, Nat.mul_comm] at hinner
  have heq : part = inner.pick (run 3 j) := by
    refine RowBlock.eq_pick_run hinner hpart hj fun row hrow => ?_
    -- every row of a cone is that of one of the arguments
    have hrow : row ∈ o.rows := ho.mem_iff.2 (by
      change row < 3 at hrow
      simp
      omega)
    have hargument : ∀ {e : AffineExpr α} {r : RowBlock α}, j < e.size → e.rowsOver v = .ok r →
        inner.Holds r (tripleRows x.size row) →
          part.Holds (r.pick [j]) (tripleRows (x.pick [j]).size row) →
            part.RowEq row inner (j * 3 + row) := by
      intro e r hje he hwhole hcone
      have hplace : (tripleRows (x.pick [j]).size row)[0]? = some row := by
        rw [getElem?_tripleRows (by simp), Nat.mul_zero, Nat.zero_add]
      have hplaces : (tripleRows x.size row)[j]? = some (j * 3 + row) := by
        rw [getElem?_tripleRows hj, Nat.mul_comm]
      exact hwhole.rowEq_of_pick hcone (AffineExpr.rowsOver_fits he) rfl hje hplaces hplace
    simp only [ExpOrder.rows, List.mem_cons, List.not_mem_nil, or_false] at hrow
    rcases hrow with rfl | rfl | rfl
    · exact hargument hj hrx hxHolds hxHolds'
    · exact hargument (hy ▸ hj) hry hyHolds hyHolds'
    · exact hargument (hz ▸ hj) hrz hzHolds hzHolds'
  rw [hblock, heq, RowBlock.slack_pick]

/-- A cone by itself has the rows of the cone in the block of all cones. -/
theorem rows_cone {c : Constraint α} {v : Variable} {o : ExpOrder} (ho : o.IsPermutation)
    {block : RowBlock α} (h : c.rows v o = .ok block) {j : Nat} (hj : j < c.condition.numCones)
    (id : ConstrId) :
    rows ⟨id, c.condition.cone j⟩ v o = .ok (block.pick (run c.condition.coneSize j)) := by
  obtain ⟨id', condition⟩ := c
  cases condition with
  | zero e => exact rows_cone_comparison h hj
  | nonpos e => exact rows_cone_comparison h hj
  | secondOrder t x pos dvd => exact rows_cone_secondOrder ho h hj
  | exponential x y z hy hz => exact rows_cone_exponential ho h hj
  | nonneg e => cases h
  | semidefinite e dim square => cases h
  | power x y z alpha hy hz inside => cases h

/-- The cones one by one have the block of the constraint. -/
theorem stackedRows_pieces {c : Constraint α} {v : Variable} {o : ExpOrder} (ho : o.IsPermutation)
    {block : RowBlock α} (h : c.rows v o = .ok block) (next : Nat) :
    stackedRows (pieces c.condition next) v o = .ok block := by
  have hfits := rows_fits ho h
  rw [size, Condition.size_eq] at hfits
  refine stackedRows_eq_ok.2 ⟨_, ?_, (RowBlock.stack_runs hfits).symm⟩
  rw [pieces, List.forall₂_map_left_iff, List.forall₂_map_right_iff, List.forall₂_same]
  exact fun j hj => rows_cone ho h (List.mem_range.1 hj) _

end Constraint

/-! ## The duals of single cones -/

namespace Segment

variable [Zero α]

/-- Segments of one kind and one size cut a vector into values that make up the value of all of
it. -/
theorem exists_cut {o : ExpOrder} (ho : o.InRange) {kind : ConeKind} {width : Nat}
    (hwidth : kind = .exponential → width = 3) {segments : List Segment}
    (hsegments : ∀ s ∈ segments, s.kind = kind ∧ s.size = width) {v : DenseVector α}
    (hlen : v.length = segments.length * width) :
    ∃ ds, cut o segments v = .ok ((segments.map id).zip ds) ∧ ds.length = segments.length ∧
      (if kind = .exponential then o.toArgs v else .ok v) = .ok ds.flatten := by
  induction segments generalizing v with
  | nil =>
    obtain rfl : v = [] := List.length_eq_zero_iff.1 (by simpa using hlen)
    exact ⟨[], rfl, rfl, by split <;> rfl⟩
  | cons s rest ih =>
    obtain ⟨hkind, hsize⟩ := hsegments s List.mem_cons_self
    rw [List.length_cons, Nat.succ_mul] at hlen
    have hrest : ∀ t ∈ rest, t.kind = kind ∧ t.size = width := fun t ht =>
      hsegments t (List.mem_cons_of_mem _ ht)
    obtain ⟨ds, hcut, hds, hvalue⟩ := ih hrest (v := v.drop width) (by rw [List.length_drop]; omega)
    rw [cut, hkind, hsize]
    by_cases hexp : kind = .exponential
    · obtain rfl := hwidth hexp
      obtain ⟨a, b, c, w, rfl⟩ : ∃ a b c w, v = a :: b :: c :: w := by
        rcases v with _ | ⟨a, _ | ⟨b, _ | ⟨c, w⟩⟩⟩
        · simp at hlen
        · simp at hlen
        · simp at hlen
        · exact ⟨a, b, c, w, rfl⟩
      have hargs := ExpOrder.toArgs_cons ho a b c
      rw [if_pos hexp] at hvalue ⊢
      refine ⟨o.rows.map (DenseVector.entry [a, b, c]) :: ds, ?_, by simp [hds], ?_⟩
      · exact bind_eq_ok.2 ⟨_, hargs [], bind_eq_ok.2 ⟨_, hcut, rfl⟩⟩
      · rw [if_pos hexp, hargs]
        exact map_eq_ok.2 ⟨_, hvalue, rfl⟩
    · rw [if_neg hexp] at hvalue ⊢
      refine ⟨v.take width :: ds, ?_, by simp [hds], ?_⟩
      · exact bind_eq_ok.2 ⟨_, rfl, bind_eq_ok.2 ⟨_, hcut, rfl⟩⟩
      · rw [if_neg hexp, List.flatten_cons, ← Except.ok.inj hvalue, List.take_append_drop]

theorem duals_singleton {s : Segment} {o : ExpOrder} {v d : DenseVector α}
    (hlen : v.length = s.size) (h : (if s.kind = .exponential then o.toArgs v else .ok v) = .ok d)
    (what : ResultVector) :
    duals [s] o what v = .ok (.ofList [(s.id, d)]) := by
  rw [duals, if_pos (by simpa using hlen), cut, List.take_of_length_le hlen.le]
  split at h
  case isTrue hexp =>
    rw [if_pos hexp, h]
    rfl
  case isFalse hexp =>
    rw [if_neg hexp, h]
    rfl

end Segment

namespace Constraint

/-- The dual values of the cones of a constraint make up its dual value. -/
theorem exists_duals_pieces [Zero α] [Add α] {c : Constraint α} {o : ExpOrder} (ho : o.InRange)
    (next : Nat) {result : DenseVector α} (hlen : result.length = c.size) (what : ResultVector) :
    ∃ whole parts d, ∃ ds : List (DenseVector α),
      Segment.duals [.ofConstraint c] o what result = .ok whole ∧ whole.find? c.id = some d ∧
      Segment.duals ((pieces c.condition next).map .ofConstraint) o what result = .ok parts ∧
      (pieces c.condition next).map (parts.find? ·.id) = ds.map some ∧ ds.flatten = d := by
  have hwidth : c.kind = .exponential → c.condition.coneSize = 3 := by
    intro hkind
    obtain ⟨id, condition⟩ := c
    cases condition with
    | exponential x y z hy hz => rfl
    | _ => cases hkind
  have hsegments : ∀ s ∈ (pieces c.condition next).map Segment.ofConstraint,
      s.kind = c.kind ∧ s.size = c.condition.coneSize := by
    intro s hs
    rw [pieces, List.map_map] at hs
    obtain ⟨j, _, rfl⟩ := List.mem_map.1 hs
    exact ⟨c.condition.kind_cone j, c.condition.size_cone j⟩
  have hcount :
      ((pieces c.condition next).map Segment.ofConstraint).length = c.condition.numCones := by
    simp [pieces]
  have hids : ((pieces c.condition next).map Segment.ofConstraint).map Segment.id =
      (pieces c.condition next).map id := by
    rw [List.map_map]
    rfl
  have hsize : c.size = c.condition.numCones * c.condition.coneSize := c.condition.size_eq
  obtain ⟨ds, hcut, hds, hvalue⟩ :=
    Segment.exists_cut ho hwidth hsegments (by rw [hlen, hcount, hsize])
  rw [hids] at hcut
  have hsizes : (((pieces c.condition next).map Segment.ofConstraint).map Segment.size).sum =
      c.size := by
    rw [map_size_ofConstraint, sum_size_pieces, size]
  refine ⟨_, .ofList (((pieces c.condition next).map id).zip ds), ds.flatten, ds,
    Segment.duals_singleton hlen hvalue what, ?_, ?_, ?_, rfl⟩
  · exact (SortedMap.find?_ofList (by simp)).2 List.mem_cons_self
  · rw [Segment.duals, if_pos (hlen.trans hsizes.symm), hcut]
    rfl
  · have hids : ((pieces c.condition next).map id).length = ds.length := by
      rw [hds, List.length_map, List.length_map]
    have hfound := SortedMap.map_find?_ofList (nodup_map_id_pieces c.condition next) hids
    rwa [List.map_map] at hfound

/-- A constraint may be split into its cones. Whenever it has rows, its cones can be made
constraints of their own, and these stand for it everywhere: they have the same block of rows, by
themselves and between other constraints, the same cones, and dual values that make up the dual
value of the constraint. -/
theorem split_of_rows [Zero α] [One α] [Add α] [Mul α] [Neg α] {c : Constraint α} {v : Variable}
    {o : ExpOrder} (ho : o.IsPermutation) {block : RowBlock α} (h : c.rows v o = .ok block)
    (s : IdSupply) :
    ∃ pieces s', c.split s = .ok pieces s' ∧
      (∀ piece ∈ pieces, piece.kind = c.kind ∧ piece.condition.numCones = 1) ∧
      stackedRows [c] v o = .ok block ∧ stackedRows pieces v o = .ok block ∧
      (∀ above below, stackedRows (above ++ pieces ++ below) v o =
        stackedRows (above ++ [c] ++ below) v o) ∧
      pieces.flatMap (·.condition.coneSizes) = c.condition.coneSizes ∧
      (pieces.map size).sum = c.size ∧
      ∀ (what : ResultVector) (result : DenseVector α), result.length = c.size →
        ∃ whole parts d, ∃ ds : List (DenseVector α),
          Segment.duals [.ofConstraint c] o what result = .ok whole ∧ whole.find? c.id = some d ∧
          Segment.duals (pieces.map .ofConstraint) o what result = .ok parts ∧
          pieces.map (parts.find? ·.id) = ds.map some ∧ ds.flatten = d := by
  have hone := stackedRows_singleton ho h
  have hpieces := stackedRows_pieces ho h s.next
  refine ⟨_, _, split_eq_ok (isSupported_of_rows h) s, ?_, hone, hpieces, ?_,
    flatMap_coneSizes_pieces .., sum_size_pieces .., ?_⟩
  · intro piece hpiece
    obtain ⟨j, _, rfl⟩ := List.mem_map.1 hpiece
    exact ⟨c.condition.kind_cone j, c.condition.numCones_cone j⟩
  · intro above below
    simp only [stackedRows_append, hone, hpieces]
  · exact fun what result hlen => exists_duals_pieces ho.inRange s.next hlen what

theorem split_twoTriples :
    let x : AffineExpr Int := .ofVariable ⟨⟨0⟩, 3, none⟩
    let v : Variable := ⟨⟨0⟩, 3, none⟩
    let c : Constraint Int :=
      ⟨⟨1⟩, .exponential (x.pick [2, 0]) (x.pick [1, 1]).neg (.ofConstant [4, 5]) rfl rfl⟩
    let o : ExpOrder := ⟨1, 2, 0⟩
    o.IsPermutation ∧ ∃ block pieces s', c.rows v o = .ok block ∧ c.split ⟨2⟩ = .ok pieces s' ∧
      stackedRows pieces v o = .ok block ∧ pieces.flatMap (·.condition.coneSizes) = [3, 3] ∧
      ∃ parts, ∃ ds : List (DenseVector Int),
        Segment.duals (pieces.map .ofConstraint) o .coneDuals [11, 12, 13, 21, 22, 23] = .ok parts ∧
        pieces.map (parts.find? ·.id) = ds.map some ∧ ds.flatten = [12, 13, 11, 22, 23, 21] := by
  intro x v c o
  have ho : o.IsPermutation := by decide
  obtain ⟨block, h⟩ : ∃ block, c.rows v o = .ok block := ⟨_, rfl⟩
  obtain ⟨pieces, s', hsplit, _, _, hrows, _, hcones, _, hduals⟩ := split_of_rows ho h ⟨2⟩
  obtain ⟨whole, parts, d, ds, hwhole, hd, hparts, hfound, hflat⟩ :=
    hduals .coneDuals [11, 12, 13, 21, 22, 23] rfl
  -- the dual value of the constraint is known
  cases hwhole
  obtain rfl : [12, 13, 11, 22, 23, 21] = d := Option.some.inj hd
  exact ⟨ho, block, pieces, s', h, hsplit, hrows, hcones, parts, ds, hparts, hfound, hflat⟩

end Constraint

end Conic
