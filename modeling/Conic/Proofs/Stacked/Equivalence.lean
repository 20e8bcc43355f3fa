import Conic.Proofs.SparseMatrix.Product
import Conic.Proofs.Stacked.Cones
import Conic.Proofs.Stacked.Sizes
import Mathlib.Algebra.Order.Ring.Int

/-!
# The stack and its program

A checked program and its stack have the same feasible points, and the multipliers of the stack are
dual feasible exactly when the duals read back from them are (`stacked_equivalent`). Objective, dual
objective and dual residual are the same on both sides. Everything rests on one exchange of rows,
which turns the rows of the program into those of the stack and, done again, the multipliers back.
-/

namespace Conic.ConeProgram

variable {α : Type}

/-! ## Rows -/

section Rows

theorem stacked_nrows [Zero α] [Add α] {p : ConeProgram α} (hp : p.HoldsTriples) :
    p.stacked.matrix.nrows = p.stackRows :=
  hp.length_rowOrder

theorem stacked_rhs [Zero α] [Add α] {p : ConeProgram α} (hp : p.Stackable) :
    p.stacked.rhs = swapAfter p.firstTriple (p.b ++ p.h) :=
  hp.holdsTriples.map_rowOrder (length_append_rows hp.length_b hp.length_h)

variable [CommRing α] {p : ConeProgram α}

theorem stacked_mulVec (hp : p.Stackable) (x : DenseVector α) :
    p.stacked.matrix.mulVec x = swapAfter p.firstTriple (p.a.mulVec x ++ p.g.mulVec x) := by
  have hncols : ∀ m ∈ [p.a, p.g], m.ncols = p.numVars := by
    intro m hm
    rcases List.mem_pair.1 hm with rfl | rfl
    · exact hp.a_ncols
    · exact hp.g_ncols
  have hinside : ∀ row ∈ p.rowOrder, row < (SparseMatrix.stack [p.a, p.g] p.numVars).nrows :=
    fun row => hp.holdsTriples.lt_of_mem_rowOrder
  have happend : (([p.a, p.g] : List (SparseMatrix α)).map (·.mulVec x)).flatten =
      p.a.mulVec x ++ p.g.mulVec x := by simp
  rw [stacked, SparseMatrix.mulVec_selectRows hinside, SparseMatrix.mulVec_stack hncols, happend,
    hp.holdsTriples.map_rowOrder
      (length_append_rows (SparseMatrix.length_mulVec ..) (SparseMatrix.length_mulVec ..))]

/-- The slack of the stack is the slack of the program with its rows exchanged. -/
theorem stacked_slack (hp : p.Stackable) (x : DenseVector α) :
    p.stacked.rhs.sub (p.stacked.matrix.mulVec x) =
      swapAfter p.firstTriple (p.b.sub (p.a.mulVec x) ++ p.h.sub (p.g.mulVec x)) := by
  have ha : p.b.length = (p.a.mulVec x).length := by
    rw [SparseMatrix.length_mulVec, hp.length_b]
  have hg : p.h.length = (p.g.mulVec x).length := by
    rw [SparseMatrix.length_mulVec, hp.length_h]
  have hall : (p.b ++ p.h).length = (p.a.mulVec x ++ p.g.mulVec x).length := by
    rw [List.length_append, List.length_append, ha, hg]
  rw [stacked_rhs hp, stacked_mulVec hp, DenseVector.sub_swapAfter hall, DenseVector.sub_append ha]

/-! ## Multipliers -/

/-- Multipliers of the rows of the program, as multipliers of the stack, cost what they did. -/
theorem stacked_rhs_dot (hp : p.Stackable) {y z : DenseVector α} (hy : y.length = p.a.nrows)
    (hz : z.length = p.g.nrows) :
    p.stacked.rhs.dot (swapAfter p.firstTriple (y ++ z)) = p.b.dot y + p.h.dot z := by
  have hall : (p.b ++ p.h).length = (swapAfter p.firstTriple (y ++ z)).length := by
    rw [length_swapAfter, length_append_rows hp.length_b hp.length_h, length_append_rows hy hz]
  rw [stacked_rhs hp, DenseVector.dot_swapAfter hall, swapAfter_swapAfter]
  exact DenseVector.dot_append (hp.length_b.trans hy.symm) p.h z

/-- Their combination of the rows is the same, too. -/
theorem stacked_transposeMulVec (hp : p.Stackable) {y z : DenseVector α} (hy : y.length = p.a.nrows)
    (hz : z.length = p.g.nrows) :
    p.stacked.matrix.transposeMulVec (swapAfter p.firstTriple (y ++ z)) =
      (p.a.transposeMulVec y).add (p.g.transposeMulVec z) := by
  have hncols : p.stacked.matrix.ncols = p.numVars := rfl
  rw [SparseMatrix.transposeMulVec_eq, SparseMatrix.transposeMulVec_eq,
    SparseMatrix.transposeMulVec_eq, hncols, hp.a_ncols, hp.g_ncols, DenseVector.add,
    List.zipWith_map, List.zipWith_self]
  refine List.map_congr_left fun col _ => ?_
  -- column by column
  have hcol : (p.a.mulVec (DenseVector.unit p.numVars col) ++
      p.g.mulVec (DenseVector.unit p.numVars col)).length =
        (swapAfter p.firstTriple (y ++ z)).length := by
    rw [length_swapAfter, length_append_rows hy hz]
    exact length_append_rows (SparseMatrix.length_mulVec ..) (SparseMatrix.length_mulVec ..)
  rw [stacked_mulVec hp, DenseVector.dot_swapAfter hcol, swapAfter_swapAfter]
  exact DenseVector.dot_append ((SparseMatrix.length_mulVec ..).trans hy.symm) _ z

end Rows

/-! ## Feasibility -/

section Feasibility

variable [CommRing α] [LinearOrder α] [IsStrictOrderedRing α] {p : ConeProgram α}

theorem stacked_feasible (hp : p.Stackable) (exp : α → α → α → Prop) (x : DenseVector α) :
    InProduct (Cone.Contains exp) p.stacked.cones
        (p.stacked.rhs.sub (p.stacked.matrix.mulVec x)) ↔
      p.a.mulVec x = p.b ∧ p.dims.Contains exp (p.h.sub (p.g.mulVec x)) := by
  have hlen : p.b.length = (p.a.mulVec x).length := by
    rw [SparseMatrix.length_mulVec, hp.length_b]
  have ha : (p.b.sub (p.a.mulVec x)).length = p.a.nrows := by
    rw [DenseVector.sub, List.length_zipWith, ← hlen, Nat.min_self, hp.length_b]
  have hg : (p.h.sub (p.g.mulVec x)).length = p.g.nrows := by
    rw [DenseVector.sub, List.length_zipWith, SparseMatrix.length_mulVec, hp.length_h, Nat.min_self]
  have hempty : p.b.sub (p.a.mulVec x) = [] →
      Cone.Contains exp (.zero p.a.nrows) (p.b.sub (p.a.mulVec x)) := by
    intro hnil a hmem
    rw [hnil] at hmem
    exact absurd hmem List.not_mem_nil
  have hequations : Cone.Contains exp (.zero p.a.nrows) (p.b.sub (p.a.mulVec x)) ↔
      p.a.mulVec x = p.b :=
    (DenseVector.forall_mem_sub_eq_zero hlen).trans eq_comm
  rw [stacked_slack hp, ← hequations, firstTriple, stackRows, ← hg]
  exact inProduct_stackedCones (fun _ _ _ => Iff.rfl) ha hempty

theorem stacked_dual_feasible (exp : α → α → α → Prop) {y z : DenseVector α}
    (hy : y.length = p.a.nrows) (hz : z.length = p.g.nrows) :
    InProduct (Cone.DualContains exp) p.stacked.cones (swapAfter p.firstTriple (y ++ z)) ↔
      p.dims.DualContains exp z := by
  have hfree : Cone.DualContains exp (.zero p.a.nrows) y := trivial
  rw [ConeDims.dualContains_iff, firstTriple, stackRows, ← hz]
  refine (inProduct_stackedCones (fun _ s hc => Cone.dualContains_iff hc s) hy
    fun _ => hfree).trans ?_
  exact and_iff_right hfree

end Feasibility

/-! ## Equivalence -/

/-- Multipliers of the stack are multipliers of the rows of the program with triples exchanged. -/
theorem exists_unstackDuals [Zero α] {p : ConeProgram α} (hp : p.HoldsTriples)
    {multipliers : DenseVector α} (h : multipliers.length = p.stackRows) :
    ∃ y z, p.unstackDuals multipliers = .ok (y, z) ∧ swapAfter p.firstTriple multipliers = y ++ z ∧
      y.length = p.a.nrows ∧ z.length = p.g.nrows := by
  have hlen : (swapAfter p.firstTriple multipliers).length = p.a.nrows + p.g.nrows := by
    rw [length_swapAfter, h, stackRows]
  refine ⟨(swapAfter p.firstTriple multipliers).take p.a.nrows,
    (swapAfter p.firstTriple multipliers).drop p.a.nrows, ?_, (List.take_append_drop ..).symm,
    ?_, ?_⟩
  · rw [hp.unstackDuals_eq_ok h, List.splitAt_eq]
  · rw [List.length_take, hlen]
    omega
  · rw [List.length_drop, hlen]
    omega

/-- An outcome that fits becomes a result whose duals are those read back from the stack. -/
theorem rawResult_eq_ok [Zero α] {p : ConeProgram α} (hp : p.HoldsTriples) {o : SolverOutcome α}
    (hx : o.x.length = p.numVars) (hz : o.z.length = p.stackRows) {y z : DenseVector α}
    (hduals : p.unstackDuals o.z = .ok (y, z)) :
    ∃ raw, o.rawResult p = .ok raw ∧ raw.exitCode = o.verdict.exitCode ∧
      raw.x = o.x ∧ raw.y = y ∧ raw.z = z := by
  have hfits : o.z.length = p.rowOrder.length ∧ o.x.length = p.numVars :=
    ⟨hz.trans hp.length_rowOrder.symm, hx⟩
  rw [SolverOutcome.rawResult, if_pos hfits, hduals]
  exact ⟨_, rfl, rfl, rfl, rfl, rfl⟩

/-- What the backend makes of a checked program whose stack is computed. -/
theorem solve_eq_rawResult [Zero α] [Add α] [FiniteTest α] {p : ConeProgram α}
    (h : p.check = .ok ()) {s : StackedProgram α} (hs : p.stacked? = some s)
    {solver : ConeSolver α} {options : SolverOptions} {settings : SolverSettings}
    (hsettings : ({} : SolverSettings).withOptions options = .ok settings)
    {o : SolverOutcome α} (ho : solver settings s = some o) :
    ConeSolver.solve solver p options = o.rawResult p := by
  simp only [ConeSolver.solve, h, hsettings, hs, ho, bind, Except.bind]

/-- A checked program and its stack are equivalent. The stack is computed where a word counts the
rows of all cones. Whenever it is, its quadratic part is zero and its linear part is the objective
of the program; a point is feasible for the stack if and only if it is for the program; and
multipliers of the stack are turned into duals that combine the rows and the right-hand sides in the
same way and are dual feasible if and only if the multipliers are. -/
theorem stacked_equivalent [CommRing α] [LinearOrder α] [IsStrictOrderedRing α] [FiniteTest α]
    {p : ConeProgram α} (hm : p.InMemory) (h : p.check = .ok ()) (exp expDual : α → α → α → Prop) :
    (p.dims.rows < wordSize → ∃ s, p.stacked? = some s) ∧
    ∀ s : StackedProgram α, p.stacked? = some s →
      s.quadratic = .zeros p.c.length p.c.length ∧ s.objective = p.c ∧
      (∀ x : DenseVector α,
        InProduct (Cone.Contains exp) s.cones (s.rhs.sub (s.matrix.mulVec x)) ↔
          p.a.mulVec x = p.b ∧ p.dims.Contains exp (p.h.sub (p.g.mulVec x))) ∧
      ∀ multipliers : DenseVector α, multipliers.length = s.matrix.nrows →
        ∃ y z, p.unstackDuals multipliers = .ok (y, z) ∧
          (∀ (solver : ConeSolver α) (options : SolverOptions) (settings : SolverSettings)
            (o : SolverOutcome α), ({} : SolverSettings).withOptions options = .ok settings →
            solver settings s = some o → o.x.length = p.numVars → o.z = multipliers →
            ∃ raw, ConeSolver.solve solver p options = .ok raw ∧
              raw.x = o.x ∧ raw.y = y ∧ raw.z = z) ∧
          s.matrix.transposeMulVec multipliers =
            (p.a.transposeMulVec y).add (p.g.transposeMulVec z) ∧
          s.rhs.dot multipliers = p.b.dot y + p.h.dot z ∧
          (InProduct (Cone.DualContains expDual) s.cones multipliers ↔
            p.dims.DualContains expDual z) := by
  have hchecked := consistent_of_check h
  refine ⟨fun hrows => ⟨p.stacked, (hchecked.stackable hm hrows).stacked?_eq hm⟩, fun s hs => ?_⟩
  obtain ⟨hp, rfl⟩ := hchecked.eq_stacked hm hs
  refine ⟨rfl, rfl, stacked_feasible hp exp, fun multipliers hlen => ?_⟩
  rw [stacked_nrows hp.holdsTriples] at hlen
  obtain ⟨y, z, hduals, hsplit, hy, hz⟩ := exists_unstackDuals hp.holdsTriples hlen
  -- the multipliers are those that come from the duals read back
  have hback : multipliers = swapAfter p.firstTriple (y ++ z) := by
    rw [← hsplit, swapAfter_swapAfter]
  refine ⟨y, z, hduals, ?_, ?_, ?_, ?_⟩
  · intro solver options settings o hsettings ho hx hmultipliers
    subst hmultipliers
    obtain ⟨raw, hraw, _, hvectors⟩ := rawResult_eq_ok hp.holdsTriples hx hlen hduals
    exact ⟨raw, (solve_eq_rawResult h hs hsettings ho).trans hraw, hvectors⟩
  · rw [hback]
    exact stacked_transposeMulVec hp hy hz
  · rw [hback]
    exact stacked_rhs_dot hp hy hz
  · rw [hback]
    exact stacked_dual_feasible expDual hy hz

instance : FiniteTest Int := ⟨fun _ => true⟩

/-- A program with rows of all kinds, with second-order cones of no, of one and of three rows. -/
def allCones : ConeProgram Int where
  c := [1, -2]
  offset := 4
  a := .ofEntries 1 2 [⟨0, 0, 1⟩, ⟨0, 1, 1⟩]
  b := [3]
  g := .ofEntries 8 2 [⟨0, 0, 2⟩, ⟨1, 1, -1⟩, ⟨2, 0, 5⟩, ⟨4, 1, 1⟩, ⟨5, 0, 1⟩, ⟨6, 1, 7⟩,
    ⟨7, 0, -3⟩]
  h := [1, 0, 9, 2, 0, 4, 6, 5]
  dims := { linear := 1, secondOrder := [0, 1, 3], exponential := 1 }

theorem allCones_equivalent :
    let exp : Int → Int → Int → Prop := fun a b c => b + 2 * c < a
    allCones.InMemory ∧ allCones.check = .ok () ∧ ∃ s, allCones.stacked? = some s ∧
      s.quadratic = .zeros 2 2 ∧ s.objective = allCones.c ∧
      (InProduct (Cone.Contains exp) s.cones (s.rhs.sub (s.matrix.mulVec [1, 2])) ↔
        allCones.a.mulVec [1, 2] = allCones.b ∧
          allCones.dims.Contains exp (allCones.h.sub (allCones.g.mulVec [1, 2]))) ∧
      ∃ y z, allCones.unstackDuals [1, 2, 3, 4, 5, 6, 7, 8, 9] = .ok (y, z) ∧
        y = [1] ∧ z = [2, 3, 4, 5, 6, 7, 9, 8] ∧
        s.matrix.transposeMulVec [1, 2, 3, 4, 5, 6, 7, 8, 9] =
          (allCones.a.transposeMulVec y).add (allCones.g.transposeMulVec z) ∧
        s.rhs.dot [1, 2, 3, 4, 5, 6, 7, 8, 9] = allCones.b.dot y + allCones.h.dot z ∧
        (InProduct (Cone.DualContains exp) s.cones [1, 2, 3, 4, 5, 6, 7, 8, 9] ↔
          allCones.dims.DualContains exp z) := by
  intro exp
  have hm : allCones.InMemory := ⟨by decide, by decide⟩
  have hcheck : allCones.check = .ok () := rfl
  obtain ⟨hcomputed, hequivalent⟩ := stacked_equivalent hm hcheck exp exp
  obtain ⟨s, hs⟩ := hcomputed (by decide)
  obtain ⟨hquadratic, hobjective, hfeasible, hmultipliers⟩ := hequivalent s hs
  obtain ⟨hp, rfl⟩ := (consistent_of_check hcheck).eq_stacked hm hs
  have hlen : List.length [(1 : Int), 2, 3, 4, 5, 6, 7, 8, 9] = allCones.stacked.matrix.nrows := by
    rw [stacked_nrows hp.holdsTriples]
    rfl
  obtain ⟨y, z, hread, _, hresidual, hcost, hdual⟩ := hmultipliers _ hlen
  have hduals := hread
  rw [hp.holdsTriples.unstackDuals_eq_ok rfl] at hduals
  cases hduals
  exact ⟨hm, hcheck, _, hs, hquadratic, hobjective, hfeasible _, _, _, hread, rfl, rfl, hresidual,
    hcost, hdual⟩

end Conic.ConeProgram
