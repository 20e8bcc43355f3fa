import Conic.ConeProgram.Assembly
import Conic.Proofs.ConeProgram.Slack

/-!
# The cone program of a problem

What a successful `toConeProgram` has done (`Assembled`, `toConeProgram_eq_ok`): the equalities give
the rows of `a`, the upper bounds, second-order and exponential cones those of `g`, in this order
and each kind in the order of the problem. The slack of a stack is the slacks of its constraints,
one after the other (`slackAt_stackedRows`).
-/

namespace Conic

variable {α : Type}

/-! ## The constraints by kind -/

/-- The constraints of one kind, in the order of the problem. -/
def Problem.ofKind (p : Problem α) (k : ConeKind) : List (Constraint α) :=
  p.constraints.filter (·.kind = k)

theorem Problem.kind_of_mem_ofKind {p : Problem α} {k : ConeKind} {c : Constraint α}
    (h : c ∈ p.ofKind k) : c.kind = k := by
  simpa using (List.mem_filter.1 h).2

/-- The constraints of the cone rows, in the order of the rows. -/
def Problem.coneConstraints (p : Problem α) : List (Constraint α) :=
  p.ofKind .nonpos ++ p.ofKind .secondOrder ++ p.ofKind .exponential

/-- The block of variables that a result is read back into. -/
def Recovery.block (r : Recovery α) : Variable := ⟨r.varId, r.varSize, none⟩

theorem ConstraintGroups.ofList_eq_ok {p : Problem α} {g : ConstraintGroups α}
    (h : ofList p.constraints = .ok g) :
    (∀ c ∈ p.constraints, c.kind.isSupported) ∧
      g = ⟨p.ofKind .zero, p.ofKind .nonpos, p.ofKind .secondOrder, p.ofKind .exponential⟩ := by
  rw [ofList] at h
  split at h
  case h_1 => cases h
  case h_2 hfind =>
    cases h
    refine ⟨fun c hc => ?_, rfl⟩
    simpa using List.find?_eq_none.1 hfind c hc

/-- In a problem of supported kinds every constraint is an equality or among the cone rows. -/
theorem Problem.zero_append_cone_perm {p : Problem α}
    (h : ∀ c ∈ p.constraints, c.kind.isSupported) :
    (p.ofKind .zero ++ p.coneConstraints).Perm p.constraints := by
  simp only [coneConstraints, ofKind]
  revert h
  generalize p.constraints = cs
  intro h
  induction cs with
  | nil => exact .nil
  | cons c cs ih =>
    have hc := h c (by simp)
    have ih := ih fun d hd => h d (by simp [hd])
    -- the head is taken out of the run of its kind
    cases hk : c.kind with
    | zero => simpa [List.filter_cons, hk] using ih
    | nonpos =>
      simp only [List.filter_cons, hk, reduceCtorEq, decide_false, decide_true, if_true,
        Bool.false_eq_true, if_false, List.cons_append]
      exact List.perm_middle.trans (ih.cons c)
    | secondOrder =>
      simp only [List.filter_cons, hk, reduceCtorEq, decide_false, decide_true, if_true,
        Bool.false_eq_true, if_false, List.append_assoc, List.cons_append] at ih ⊢
      rw [← List.append_assoc] at ih ⊢
      exact List.perm_middle.trans (ih.cons c)
    | exponential =>
      simp only [List.filter_cons, hk, reduceCtorEq, decide_false, decide_true, if_true,
        Bool.false_eq_true, if_false, ← List.append_assoc] at ih ⊢
      exact List.perm_middle.trans (ih.cons c)
    | nonneg => rw [hk] at hc; cases hc
    | semidefinite => rw [hk] at hc; cases hc
    | power => rw [hk] at hc; cases hc

/-! ## Stacks of constraints -/

namespace Constraint

section Blocks

variable [Zero α] [One α] [Add α] [Mul α] [Neg α]

theorem stackedRows_eq_ok {cs : List (Constraint α)} {v : Variable} {o : ExpOrder}
    {stack : RowBlock α} :
    stackedRows cs v o = .ok stack ↔
      ∃ blocks, List.Forall₂ (fun c b => c.rows v o = .ok b) cs blocks ∧
        stack = .stack blocks v.size := by
  rw [stackedRows, bind_eq_ok]
  constructor
  · rintro ⟨blocks, hblocks, h⟩
    cases h
    exact ⟨blocks, mapM_eq_ok.1 hblocks, rfl⟩
  · rintro ⟨blocks, hblocks, rfl⟩
    exact ⟨blocks, mapM_eq_ok.2 hblocks, rfl⟩

/-- The blocks of a stack are as high as the constraints and as wide as the variable block. -/
theorem blocks_fit {cs : List (Constraint α)} {v : Variable} {o : ExpOrder} (ho : o.IsPermutation)
    {blocks : List (RowBlock α)} (h : List.Forall₂ (fun c b => c.rows v o = .ok b) cs blocks) :
    List.Forall₂ (fun c b => b.Fits (Constraint.size c) v.size) cs blocks :=
  h.imp fun _ _ hb => rows_fits ho hb

omit [Zero α] [One α] [Add α] [Mul α] [Neg α] in
theorem map_nrows_of_fit {cs : List (Constraint α)} {ncols : Nat} {blocks : List (RowBlock α)}
    (h : List.Forall₂ (fun c b => b.Fits (Constraint.size c) ncols) cs blocks) :
    blocks.map (·.matrix.nrows) = cs.map size := by
  induction h with
  | nil => rfl
  | cons hb _ ih => rw [List.map_cons, List.map_cons, hb.nrows_eq, ih]

omit [Zero α] [One α] [Add α] [Mul α] [Neg α] in
theorem map_length_offset_of_fit {cs : List (Constraint α)} {ncols : Nat}
    {blocks : List (RowBlock α)}
    (h : List.Forall₂ (fun c b => b.Fits (Constraint.size c) ncols) cs blocks) :
    (blocks.map RowBlock.offset).map List.length = cs.map size := by
  induction h with
  | nil => rfl
  | cons hb _ ih => simp only [List.map_cons, hb.length_offset, ih]

theorem stackedRows_fits {cs : List (Constraint α)} {v : Variable} {o : ExpOrder}
    (ho : o.IsPermutation) {stack : RowBlock α} (h : stackedRows cs v o = .ok stack) :
    stack.Fits (cs.map size).sum v.size := by
  obtain ⟨blocks, hblocks, rfl⟩ := stackedRows_eq_ok.1 h
  have hfit := blocks_fit ho hblocks
  refine ⟨?_, rfl, ?_⟩
  · rw [RowBlock.stack, SparseMatrix.stack_nrows, List.map_map, ← map_nrows_of_fit hfit]
    rfl
  · rw [RowBlock.stack, List.length_flatten, map_length_offset_of_fit hfit]

end Blocks

/-- The slack of a stack is the slacks of its constraints one after the other. -/
theorem slackAt_stackedRows [CommRing α] {cs : List (Constraint α)} {v : Variable}
    {stack : RowBlock α} (h : stackedRows cs v .standard = .ok stack) (x : Assignment α) :
    stack.slackAt (x v.id) = cs.flatMap (·.condition.slack x) := by
  obtain ⟨blocks, hblocks, rfl⟩ := stackedRows_eq_ok.1 h
  have hfit := blocks_fit standard_isPermutation hblocks
  clear h
  have hncols : ∀ m ∈ blocks.map RowBlock.matrix, m.ncols = v.size := by
    clear hblocks
    induction hfit with
    | nil => simp
    | cons hb _ ih => simpa using ⟨hb.ncols_eq, by simpa using ih⟩
  rw [RowBlock.slackAt, RowBlock.stack, SparseMatrix.mulVec_stack hncols]
  clear hncols
  induction hblocks with
  | nil => rfl
  | cons hb _ ih =>
    cases hfit with
    | cons hbfit hfit =>
      rw [List.flatMap_cons, ← slackAt_rows hb x, ← ih hfit]
      simp only [List.map_cons, List.flatten_cons, RowBlock.slackAt, DenseVector.sub]
      rw [List.zipWith_append (by rw [SparseMatrix.length_mulVec, hbfit.length_offset,
        hbfit.nrows_eq])]

end Constraint

/-! ## The whole program -/

/-- The cone program `q` and the recovery `r` are those of the problem `p`. -/
structure Assembled [Zero α] [One α] [Add α] [Mul α] [Neg α] (p : Problem α) (q : ConeProgram α)
    (r : Recovery α) : Prop where
  sense : p.sense = .minimize
  size : p.objective.size = 1
  supported : ∀ c ∈ p.constraints, c.kind.isSupported
  objective : ∃ row, p.objective.rowsOver r.block = .ok row ∧ q.c = row.matrix.columnSums ∧
    q.offset = row.offset.entry 0
  equality_rows : Constraint.stackedRows (p.ofKind .zero) r.block .standard = .ok ⟨q.a, q.b⟩
  cone_rows : Constraint.stackedRows p.coneConstraints r.block .standard = .ok ⟨q.g, q.h⟩
  dims : q.dims =
    { linear := ((p.ofKind .nonpos).map Constraint.size).sum
      secondOrder := (p.ofKind .secondOrder).flatMap (·.condition.coneSizes)
      exponential := ((p.ofKind .exponential).map (·.condition.numCones)).sum }
  offset : r.offset = q.offset
  equalities : r.equalities = (p.ofKind .zero).map .ofConstraint
  cones : r.cones = p.coneConstraints.map .ofConstraint

theorem Problem.name_of_singleVariable {p : Problem α} {v : Variable}
    (h : p.singleVariable = .ok v) : v.name = none := by
  rw [singleVariable] at h
  split at h <;> cases h
  rfl

theorem Problem.scalarObjective_eq_ok {p : Problem α} {e : AffineExpr α}
    (h : p.scalarObjective = .ok e) :
    p.sense = .minimize ∧ p.objective.size = 1 ∧ e = p.objective := by
  rw [scalarObjective] at h
  split at h
  case h_1 => cases h
  case h_2 hsense =>
    split at h
    case isFalse => cases h
    case isTrue hsize =>
      cases h
      exact ⟨hsense, hsize, rfl⟩

theorem Problem.toConeProgram_eq_ok [Zero α] [One α] [Add α] [Mul α] [Neg α] {p : Problem α}
    {q : ConeProgram α} {r : Recovery α} (h : p.toConeProgram = .ok (q, r)) : Assembled p q r := by
  simp only [toConeProgram, bind_eq_ok] at h
  obtain ⟨v, hv, e, he, g, hg, row, hrow, eqs, heqs, cone, hcone, h⟩ := h
  obtain ⟨hsense, hsize, rfl⟩ := scalarObjective_eq_ok he
  obtain ⟨hsupported, rfl⟩ := ConstraintGroups.ofList_eq_ok hg
  obtain ⟨id, size, name⟩ := v
  obtain rfl : name = none := name_of_singleVariable hv
  cases h
  exact
    { sense := hsense
      size := hsize
      supported := hsupported
      objective := ⟨row, hrow, rfl, rfl⟩
      equality_rows := heqs
      cone_rows := hcone
      dims := rfl
      offset := rfl
      equalities := rfl
      cones := rfl }

namespace Assembled

variable [CommRing α] {p : Problem α} {q : ConeProgram α} {r : Recovery α}

/-- The slack of the program at a point is the slacks of the constraints in the order of the
rows. -/
theorem slack_equalities (h : Assembled p q r) (x : Assignment α) :
    q.b.sub (q.a.mulVec (x r.varId)) = (p.ofKind .zero).flatMap (·.condition.slack x) :=
  Constraint.slackAt_stackedRows h.equality_rows x

theorem slack_cones (h : Assembled p q r) (x : Assignment α) :
    q.h.sub (q.g.mulVec (x r.varId)) = p.coneConstraints.flatMap (·.condition.slack x) :=
  Constraint.slackAt_stackedRows h.cone_rows x

end Assembled

/-! ## The objective -/

section Objective

variable [CommRing α]

theorem SparseMatrix.columnSums_dot (m : SparseMatrix α) (x : DenseVector α) :
    m.columnSums.dot x = (m.entries.map fun e => e.value * x.entry e.col).sum := by
  have hlist : ∀ (l : List (Entry α)) (v : DenseVector α), (∀ e ∈ l, e.col < v.length) →
      DenseVector.dot (l.foldl (fun v e => v.modify e.col (· + e.value)) v) x =
        v.dot x + (l.map fun e => e.value * x.entry e.col).sum := by
    intro l
    induction l with
    | nil => simp
    | cons e l ih =>
      intro v hcols
      rw [List.foldl_cons, ih, DenseVector.dot_modify (hcols e List.mem_cons_self), List.map_cons,
        List.sum_cons, add_assoc]
      intro d hd
      rw [List.length_modify]
      exact hcols d (List.mem_cons_of_mem _ hd)
  rw [columnSums, hlist, DenseVector.dot_zeros, zero_add]
  intro e he
  rw [DenseVector.zeros, List.length_replicate]
  exact (lt_of_mem_entries he).2

/-- The cost of a point and the constant of the program make up the value of the objective. -/
theorem Assembled.cost_add_offset {p : Problem α} {q : ConeProgram α} {r : Recovery α}
    (h : Assembled p q r) (x : Assignment α) :
    q.c.dot (x r.varId) + q.offset = p.objective.valueAt x 0 := by
  obtain ⟨row, hrow, hc, hoffset⟩ := h.objective
  have hfits := AffineExpr.rowsOver_fits hrow
  rw [AffineExpr.valueAt_eq hrow, hc, hoffset, SparseMatrix.columnSums_dot,
    SparseMatrix.rowValue_eq_sum_entries]
  congr 2
  refine List.map_congr_left fun e he => ?_
  -- the objective has no row but the first
  have hlt := (SparseMatrix.lt_of_mem_entries he).1
  rw [hfits.nrows_eq, h.size] at hlt
  rw [if_pos (Nat.lt_one_iff.1 hlt)]
  rfl

end Objective

/-- A problem with constraints of every supported kind, in another order than that of the rows. -/
def Problem.everyKind : Problem Int :=
  let x : AffineExpr Int := .ofVariable ⟨⟨0⟩, 3, none⟩
  { sense := .minimize
    objective := x.sum.plus 7
    constraints :=
      [⟨⟨1⟩, .exponential (x.pick [0]) (x.pick [1]) (x.pick [2]) rfl rfl⟩,
        ⟨⟨2⟩, .secondOrder (x.pick [0, 1]) (x.pick [2, 1, 1, 1]).neg (by decide) (by decide)⟩,
        ⟨⟨3⟩, .zero (x.sum.plus (-3))⟩,
        ⟨⟨4⟩, .nonpos ((x.scale 2).plus (-9))⟩,
        ⟨⟨5⟩, .exponential (.ofScalar 1) (x.pick [2]) (x.pick [1]) rfl rfl⟩,
        ⟨⟨6⟩, .zero (x.pick [1])⟩] }

theorem Problem.everyKind_toConeProgram :
    ∃ q r, everyKind.toConeProgram = .ok (q, r) ∧ q.c = [1, 1, 1] ∧ r.varSize = 3 ∧
      q.a.nrows = 2 ∧ q.g.nrows = 15 :=
  ⟨_, _, rfl, rfl, rfl, rfl, rfl⟩

end Conic
