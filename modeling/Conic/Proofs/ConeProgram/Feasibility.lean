import Conic.Proofs.Cones
import Conic.Proofs.ConeProgram.Ownership
import Mathlib.Algebra.Order.Ring.Int

/-!
# Feasibility

A point satisfies the constraints of a problem exactly when it is feasible for the cone program, and
the cost of the program is the value of the objective. The slack of the program is cut into the
slacks of the constraints, and the slack of a constraint lies in its cones exactly when the
constraint holds (`holds_iff_coneSizes`, `holds_iff_triples`).
-/

namespace Conic

variable {α : Type}

variable [CommRing α]

/-- The slack of a condition of a supported kind is as long as the condition is large. -/
theorem Condition.length_slack {c : Condition α} (h : c.kind.isSupported) (x : Assignment α) :
    (c.slack x).length = c.size := by
  cases c with
  | zero e => simp [slack, size, args, DenseVector.neg, AffineExpr.length_value]
  | nonpos e => simp [slack, size, args, DenseVector.neg, AffineExpr.length_value]
  | secondOrder t u pos dvd =>
    rw [size_secondOrder]
    simp [slack, List.length_flatMap]
  | exponential u v w hv hw =>
    rw [size_exponential, Nat.mul_comm]
    simp [slack, List.length_flatMap]
  | nonneg e => cases h
  | semidefinite e dim square => cases h
  | power u v w alpha hv hw inside => cases h

/-! ## The meaning of a condition -/

variable [LinearOrder α]

/-- A condition holds at a point, where `exp` tells what an exponential cone holds. Kinds that no
arithmetic over the scalars can express hold nowhere. -/
def Condition.Holds (exp : α → α → α → Prop) (c : Condition α) (x : Assignment α) : Prop :=
  match c with
  | zero e => ∀ i < e.size, e.valueAt x i = 0
  | nonpos e => ∀ i < e.size, e.valueAt x i ≤ 0
  | nonneg e => ∀ i < e.size, 0 ≤ e.valueAt x i
  | secondOrder t u _ _ =>
    let body := u.size / t.size
    ∀ j < t.size, 0 ≤ t.valueAt x j ∧
      ∑ r ∈ Finset.range body, u.valueAt x (j * body + r) ^ 2 ≤ t.valueAt x j ^ 2
  | exponential u v w _ _ => ∀ j < u.size, exp (u.valueAt x j) (v.valueAt x j) (w.valueAt x j)
  | _ => False

namespace Condition

variable {exp : α → α → α → Prop} {c : Condition α}

theorem holds_iff_zero (h : c.kind = .zero) (x : Assignment α) :
    c.Holds exp x ↔ ∀ a ∈ c.slack x, a = 0 := by
  cases c with
  | zero e =>
    simp only [slack, DenseVector.neg, AffineExpr.value, List.map_map, List.forall_mem_map,
      List.mem_range, Function.comp, neg_eq_zero]
    rfl
  | _ => cases h

theorem holds_iff_nonneg [IsStrictOrderedRing α] (h : c.kind = .nonpos) (x : Assignment α) :
    c.Holds exp x ↔ ∀ a ∈ c.slack x, 0 ≤ a := by
  cases c with
  | nonpos e =>
    simp only [slack, DenseVector.neg, AffineExpr.value, List.map_map, List.forall_mem_map,
      List.mem_range, Function.comp, neg_nonneg]
    rfl
  | _ => cases h

theorem holds_iff_coneSizes (exp' : α → α → α → Prop) (h : c.kind = .secondOrder)
    (x : Assignment α) : c.Holds exp x ↔
      InProduct (Cone.Contains exp') (c.coneSizes.map .secondOrder) (c.slack x) := by
  cases c with
  | secondOrder t u pos dvd =>
    rw [coneSizes, List.map_replicate, slack, inProduct_replicate fun _ _ => by simp [Cone.rows]]
    simp only [Holds, Cone.Contains, InLorentz, DenseVector.normSq_map_range]
  | _ => cases h

theorem holds_iff_triples (h : c.kind = .exponential) (x : Assignment α) :
    c.Holds exp x ↔
      InProduct (Cone.Contains fun a b c => exp a c b) (List.replicate c.numCones .exponential)
        (c.slack x) := by
  cases c with
  | exponential u v w hv hw =>
    rw [numCones, slack, inProduct_replicate fun _ _ => rfl]
    rfl
  | _ => cases h

end Condition

/-! ## Runs of constraints -/

namespace Constraint

variable {exp : α → α → α → Prop} {cs : List (Constraint α)}

omit [LinearOrder α] in
theorem length_flatMap_slack {k : ConeKind} (hk : k.isSupported) (h : ∀ c ∈ cs, c.kind = k)
    (x : Assignment α) : (cs.flatMap (·.condition.slack x)).length = (cs.map size).sum := by
  rw [List.length_flatMap]
  congr 1
  refine List.map_congr_left fun c hc => Condition.length_slack ?_ x
  have hck : c.condition.kind = k := h c hc
  rw [hck]
  exact hk

theorem holds_iff_coneSizes (exp' : α → α → α → Prop) (h : ∀ c ∈ cs, c.kind = .secondOrder)
    (x : Assignment α) : (∀ c ∈ cs, c.condition.Holds exp x) ↔
      InProduct (Cone.Contains exp') ((cs.flatMap (·.condition.coneSizes)).map .secondOrder)
        (cs.flatMap (·.condition.slack x)) := by
  have hlen : ∀ c ∈ cs, (c.condition.slack x).length =
      ((c.condition.coneSizes.map Cone.secondOrder).map Cone.rows).sum := by
    intro c hc
    have hsupported : c.condition.kind.isSupported := by
      have hk : c.condition.kind = .secondOrder := h c hc
      rw [hk]
      rfl
    have hrows : (c.condition.coneSizes.map Cone.secondOrder).map Cone.rows =
        c.condition.coneSizes := by
      rw [List.map_map]
      exact List.map_id _
    rw [Condition.length_slack hsupported, hrows, Condition.sum_coneSizes]
  rw [List.map_flatMap, inProduct_flatMap hlen]
  exact forall₂_congr fun c hc => Condition.holds_iff_coneSizes exp' (h c hc) x

theorem holds_iff_triples (h : ∀ c ∈ cs, c.kind = .exponential) (x : Assignment α) :
    (∀ c ∈ cs, c.condition.Holds exp x) ↔
      InProduct (Cone.Contains fun a b c => exp a c b)
        (List.replicate (cs.map (·.condition.numCones)).sum .exponential)
        (cs.flatMap (·.condition.slack x)) := by
  have hlen : ∀ c ∈ cs, (c.condition.slack x).length =
      ((List.replicate c.condition.numCones Cone.exponential).map Cone.rows).sum := by
    intro c hc
    have hk : c.condition.kind = .exponential := h c hc
    cases hcond : c.condition with
    | exponential u v w hv hw =>
      simp [Condition.slack, Condition.numCones, Cone.rows, List.length_flatMap]
    | _ => rw [hcond] at hk; cases hk
  rw [replicate_sum, inProduct_flatMap hlen]
  exact forall₂_congr fun c hc => Condition.holds_iff_triples (h c hc) x

end Constraint

/-! ## The whole program -/

namespace Assembled

variable {p : Problem α} {q : ConeProgram α} {r : Recovery α}

theorem holds_equalities (h : Assembled p q r) (exp : α → α → α → Prop) (x : Assignment α) :
    (∀ c ∈ p.ofKind .zero, c.condition.Holds exp x) ↔ q.a.mulVec (x r.varId) = q.b := by
  have hlen : q.b.length = (q.a.mulVec (x r.varId)).length := by
    rw [SparseMatrix.length_mulVec]
    exact h.ownsRows_equalities.fits.length_offset.trans h.ownsRows_equalities.fits.nrows_eq.symm
  rw [eq_comm, ← DenseVector.forall_mem_sub_eq_zero hlen, h.slack_equalities,
    List.forall_mem_flatMap]
  refine forall₂_congr fun c hc => ?_
  exact Condition.holds_iff_zero (Problem.kind_of_mem_ofKind hc) x

theorem holds_cones [IsStrictOrderedRing α] (h : Assembled p q r) (exp : α → α → α → Prop)
    (x : Assignment α) : (∀ c ∈ p.coneConstraints, c.condition.Holds exp x) ↔
      q.dims.Contains exp (q.h.sub (q.g.mulVec (x r.varId))) := by
  have hkind : ∀ k, ∀ c ∈ p.ofKind k, c.kind = k := fun k c hc => Problem.kind_of_mem_ofKind hc
  rw [h.slack_cones, Problem.coneConstraints, List.append_assoc, List.flatMap_append,
    List.flatMap_append, h.dims,
    ConeDims.contains_append (Constraint.length_flatMap_slack rfl (hkind .nonpos) x)
      ((Constraint.length_flatMap_slack rfl (hkind .secondOrder) x).trans
        (sum_flatMap_coneSizes _).symm),
    ← Constraint.holds_iff_coneSizes _ (hkind .secondOrder) x,
    ← Constraint.holds_iff_triples (hkind .exponential) x]
  have hnonpos : (∀ c ∈ p.ofKind .nonpos, c.condition.Holds exp x) ↔
      ∀ a ∈ (p.ofKind .nonpos).flatMap (·.condition.slack x), 0 ≤ a := by
    rw [List.forall_mem_flatMap]
    exact forall₂_congr fun c hc => Condition.holds_iff_nonneg (hkind .nonpos c hc) x
  rw [← hnonpos]
  rw [List.forall_mem_append, List.forall_mem_append]

end Assembled

/-- The cone program means what the problem means. At every point, the cost and the constant make up
the value of the objective, which is what a result for this point reports, and the constraints hold
if and only if the equations do and the slack lies in the cones. -/
theorem Problem.meaning_of_toConeProgram [IsStrictOrderedRing α] (exp : α → α → α → Prop)
    {p : Problem α} {q : ConeProgram α} {r : Recovery α} (h : p.toConeProgram = .ok (q, r))
    (x : Assignment α) :
    (p.objective.value x = [q.c.dot (x r.varId) + q.offset] ∧
      ∀ raw : RawResult α, raw.HasSolution → raw.x = x r.varId → raw.x.length = r.varSize →
        raw.y.length = q.a.nrows → raw.z.length = q.g.nrows → raw.primalCost = q.c.dot raw.x →
        ∃ s, r.solution raw = .ok s ∧ s.optimalValue = some (p.objective.valueAt x 0)) ∧
    ((∀ c ∈ p.constraints, c.condition.Holds exp x) ↔
      q.a.mulVec (x r.varId) = q.b ∧ q.dims.Contains exp (q.h.sub (q.g.mulVec (x r.varId)))) := by
  have ha := toConeProgram_eq_ok h
  refine ⟨⟨?_, ?_⟩, ?_⟩
  · rw [ha.cost_add_offset, AffineExpr.value, ha.size]
    rfl
  · intro raw hsol hx hxlen hy hz hcost
    obtain ⟨s, hs, hval, _⟩ :=
      Recovery.solution_eq_ok hsol (ha.fits hxlen hy hz) ha.three_dvd_size
    refine ⟨s, hs, ?_⟩
    rw [hval, hcost, hx, ha.offset, ha.cost_add_offset]
  · -- the constraints are those of the equality rows and those of the cone rows
    rw [← ha.holds_equalities exp x, ← ha.holds_cones exp x, ← List.forall_mem_append]
    exact forall_congr' fun c => by rw [(zero_append_cone_perm ha.supported).mem_iff]

theorem Problem.everyKind_meaning :
    let x : Assignment Int := fun _ => [4, 0, -1]
    let exp : Int → Int → Int → Prop := fun a b c => b + 2 * c < a
    ∃ q r, everyKind.toConeProgram = .ok (q, r) ∧
      everyKind.objective.value x = [q.c.dot (x r.varId) + q.offset] ∧
      (∃ s, r.solution RawResult.numbered = .ok s ∧
        s.optimalValue = some (everyKind.objective.valueAt x 0)) ∧
      ((∀ c ∈ everyKind.constraints, c.condition.Holds exp x) ↔
        q.a.mulVec (x r.varId) = q.b ∧ q.dims.Contains exp (q.h.sub (q.g.mulVec (x r.varId)))) := by
  intro x exp
  obtain ⟨q, r, h, hc, hx, hy, hz⟩ := everyKind_toConeProgram
  obtain ⟨⟨hvalue, hreport⟩, hfeasible⟩ := meaning_of_toConeProgram exp h x
  have hcost : RawResult.numbered.primalCost = q.c.dot RawResult.numbered.x := by
    rw [hc]
    rfl
  exact ⟨q, r, h, hvalue, hreport _ RawResult.numbered_hasSolution rfl hx.symm hy.symm hz.symm
    hcost, hfeasible⟩

end Conic
