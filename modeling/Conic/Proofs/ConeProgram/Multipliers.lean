import Conic.Proofs.ConeProgram.Feasibility

/-!
# Multipliers

The dual values of a recovered solution are Lagrange multipliers of the constraints: the Lagrangian
of the cone program, at any point and with the dual vectors of a result, is the Lagrangian of the
problem with the dual values read back from them. A comparison counts with its expression, a cone
with its arguments taken off.
-/

namespace Conic

variable {α : Type} [CommRing α]

/-- The term of a condition in the Lagrangian, with the dual value `d`. Kinds without rows have
none. -/
def Condition.lagrangeTerm (c : Condition α) (d : DenseVector α) (x : Assignment α) : α :=
  match c with
  | zero e => d.dot (e.value x)
  | nonpos e => d.dot (e.value x)
  | secondOrder t u _ _ =>
    -(let body := u.size / t.size
      ∑ j ∈ Finset.range t.size, (d.entry (j * (body + 1)) * t.valueAt x j +
        ∑ r ∈ Finset.range body, d.entry (j * (body + 1) + 1 + r) * u.valueAt x (j * body + r)))
  | exponential u v w _ _ =>
    -∑ j ∈ Finset.range u.size, (d.entry (3 * j) * u.valueAt x j +
      d.entry (3 * j + 1) * v.valueAt x j + d.entry (3 * j + 2) * w.valueAt x j)
  | _ => 0

theorem Condition.dot_slack_secondOrder {t u : AffineExpr α} {pos : 0 < t.size}
    {dvd : t.size ∣ u.size} {piece : DenseVector α}
    (hlen : piece.length = (secondOrder t u pos dvd).size) (x : Assignment α) :
    piece.dot (slack (.secondOrder t u pos dvd) x) =
      -lagrangeTerm (.secondOrder t u pos dvd) piece x := by
  have hpiece := DenseVector.map_entry_range piece
  rw [hlen, size_secondOrder, map_range_mul] at hpiece
  rw [lagrangeTerm, neg_neg]
  conv_lhs => rw [← hpiece]
  rw [slack, DenseVector.dot_flatMap_range fun j _ => by simp]
  refine Finset.sum_congr rfl fun j _ => ?_
  rw [map_range_succ, DenseVector.dot_cons, DenseVector.dot_map_range]
  congr 1
  refine Finset.sum_congr rfl fun r _ => ?_
  rw [show j * (u.size / t.size + 1) + (r + 1) = j * (u.size / t.size + 1) + 1 + r by omega]

theorem Condition.dot_slack_exponential {u v w : AffineExpr α} {hv : v.size = u.size}
    {hw : w.size = u.size} {piece : DenseVector α}
    (hlen : piece.length = (exponential u v w hv hw).size) (x : Assignment α) :
    piece.dot (slack (.exponential u v w hv hw) x) =
      -lagrangeTerm (.exponential u v w hv hw) (swapTriples piece) x := by
  have hsize : (swapTriples piece).length = 3 * u.size := by
    rw [length_swapTriples, hlen, size_exponential]
  have hslack : (swapTriples piece).length = (slack (.exponential u v w hv hw) x).length := by
    rw [length_swapTriples, length_slack rfl, hlen]
  -- both vectors are put into the order of the arguments
  have hswap := DenseVector.dot_swapTriples hslack
  rw [swapTriples_swapTriples, slack, swapTriples_flatMap] at hswap
  rw [lagrangeTerm, neg_neg, slack, hswap]
  conv_lhs => rw [DenseVector.eq_flatMap_triples hsize]
  rw [DenseVector.dot_flatMap_range fun j _ => by simp]
  refine Finset.sum_congr rfl fun j _ => ?_
  simp only [DenseVector.dot_cons, DenseVector.dot_nil_left, add_zero, add_assoc]

/-- A piece of a dual vector weighs the slack of its constraint as the dual value weighs the term of
the constraint, with the other sign. -/
theorem Constraint.dot_slack {c : Constraint α} {piece : DenseVector α} (h : c.kind.isSupported)
    (hlen : piece.length = c.size) (x : Assignment α) :
    piece.dot (c.condition.slack x) =
      -c.condition.lagrangeTerm ((Segment.ofConstraint c).reading piece) x := by
  obtain ⟨id, condition⟩ := c
  cases condition with
  | zero e => exact DenseVector.dot_neg_right piece (e.value x)
  | nonpos e => exact DenseVector.dot_neg_right piece (e.value x)
  | secondOrder t u pos dvd => exact Condition.dot_slack_secondOrder hlen x
  | exponential u v w hv hw => exact Condition.dot_slack_exponential hlen x
  | nonneg e => cases h
  | semidefinite e dim square => cases h
  | power u v w alpha hv hw inside => cases h

/-- Constraint by constraint along a stack of rows. -/
theorem Constraint.dot_flatMap_slack {cs : List (Constraint α)} {v : DenseVector α}
    {d : ConstrId → DenseVector α} (h : ∀ c ∈ cs, c.kind.isSupported)
    (hlen : v.length = (cs.map size).sum)
    (hd : ∀ e ∈ Segment.pieces (cs.map .ofConstraint) v, d e.1 = e.2) (x : Assignment α) :
    v.dot (cs.flatMap (·.condition.slack x)) =
      -(cs.map fun c => c.condition.lagrangeTerm (d c.id) x).sum := by
  induction cs generalizing v with
  | nil => simp
  | cons c cs ih =>
    rw [List.map_cons, List.sum_cons] at hlen
    have hc := h c List.mem_cons_self
    have hpiece : (v.take c.size).length = c.size := by
      rw [List.length_take]
      omega
    have hslack : (v.take c.size).length = (c.condition.slack x).length := by
      rw [hpiece, Condition.length_slack hc]
      rfl
    have hhead : d c.id = (Segment.ofConstraint c).reading (v.take c.size) :=
      hd _ List.mem_cons_self
    have hrest := ih (v := v.drop c.size) (fun b hb => h b (List.mem_cons_of_mem _ hb))
      (by rw [List.length_drop]; omega) fun e he => hd e (List.mem_cons_of_mem _ he)
    rw [List.flatMap_cons, List.map_cons, List.sum_cons, hhead, neg_add, ← dot_slack hc hpiece x,
      ← hrest, ← DenseVector.dot_append hslack, List.take_append_drop]

/-- The residuals of the program, weighed with the dual vectors, are the terms of the
constraints. -/
theorem Assembled.dot_residuals {p : Problem α} {q : ConeProgram α} {r : Recovery α}
    (h : Assembled p q r) {y z : DenseVector α} (hy : y.length = q.a.nrows)
    (hz : z.length = q.g.nrows) {d : ConstrId → DenseVector α}
    (hd : ∀ e ∈ Segment.pieces ((p.ofKind .zero).map .ofConstraint) y ++
      Segment.pieces (p.coneConstraints.map .ofConstraint) z, d e.1 = e.2) (x : Assignment α) :
    y.dot ((q.a.mulVec (x r.varId)).sub q.b) + z.dot ((q.g.mulVec (x r.varId)).sub q.h) =
      (p.constraints.map fun c => c.condition.lagrangeTerm (d c.id) x).sum := by
  have hperm := Problem.zero_append_cone_perm h.supported
  have hsupported : ∀ c ∈ p.ofKind .zero ++ p.coneConstraints, c.kind.isSupported := by
    intro c hc
    exact h.supported c (hperm.mem_iff.1 hc)
  have hequalities := Constraint.dot_flatMap_slack
    (fun c hc => hsupported c (List.mem_append_left _ hc))
    (hy.trans h.ownsRows_equalities.fits.nrows_eq)
    (fun e he => hd e (List.mem_append_left _ he)) x
  have hcones := Constraint.dot_flatMap_slack
    (fun c hc => hsupported c (List.mem_append_right _ hc))
    (hz.trans h.ownsRows_cones.fits.nrows_eq)
    (fun e he => hd e (List.mem_append_right _ he)) x
  rw [DenseVector.dot_sub_comm y, DenseVector.dot_sub_comm z, h.slack_equalities, h.slack_cones,
    hequalities, hcones, neg_neg, neg_neg, ← List.sum_append, ← List.map_append]
  exact (hperm.map _).sum_eq

/-- Recovered dual values are Lagrange multipliers: for a fitting result with a solution, every
constraint has a dual value of its size, and at every point the Lagrangian of the cone program with
the dual vectors of the result is that of the problem with these dual values. -/
theorem Problem.lagrangian_of_toConeProgram {p : Problem α} {q : ConeProgram α} {r : Recovery α}
    (h : p.toConeProgram = .ok (q, r)) (hnd : (p.constraints.map Constraint.id).Nodup)
    {raw : RawResult α} (hsol : raw.HasSolution) (hx : raw.x.length = r.varSize)
    (hy : raw.y.length = q.a.nrows) (hz : raw.z.length = q.g.nrows) :
    ∃ s, r.solution raw = .ok s ∧ ∃ d : ConstrId → DenseVector α,
      (∀ c ∈ p.constraints, s.dual? c.id = some (d c.id) ∧ (d c.id).length = c.size) ∧
      ∀ x : Assignment α,
        q.c.dot (x r.varId) + q.offset + raw.y.dot ((q.a.mulVec (x r.varId)).sub q.b) +
            raw.z.dot ((q.g.mulVec (x r.varId)).sub q.h) =
          p.objective.valueAt x 0 +
            (p.constraints.map fun c => c.condition.lagrangeTerm (d c.id) x).sum := by
  have ha := toConeProgram_eq_ok h
  obtain ⟨s, hs, _, _, hduals⟩ :=
    Recovery.solution_eq_ok hsol (ha.fits hx hy hz) ha.three_dvd_size
  -- the dual values by identifier
  let d : ConstrId → DenseVector α := fun id => ((r.dualsOf raw.y raw.z).find? id).getD []
  have hfound : ∀ id v, (r.dualsOf raw.y raw.z).find? id = some v → d id = v := by
    intro id v hv
    show ((r.dualsOf raw.y raw.z).find? id).getD [] = v
    rw [hv]
    rfl
  refine ⟨s, hs, d, ?_, ?_⟩
  · intro c hc
    obtain ⟨v, hv, hlen⟩ := ha.exists_dual hnd hy hz hc
    rw [Solution.dual?, hduals, hfound c.id v hv]
    exact ⟨hv, hlen⟩
  · intro x
    rw [ha.cost_add_offset, add_assoc, ha.dot_residuals hy hz ?_ x]
    intro e he
    exact hfound e.1 e.2 ((ha.find?_dualsOf hnd).2 he)

theorem Problem.everyKind_lagrangian :
    ∃ q r, everyKind.toConeProgram = .ok (q, r) ∧ (everyKind.constraints.map Constraint.id).Nodup ∧
      ∃ s, r.solution RawResult.numbered = .ok s ∧ ∃ d : ConstrId → DenseVector Int,
        (∀ c ∈ everyKind.constraints, s.dual? c.id = some (d c.id) ∧ (d c.id).length = c.size) ∧
        ∀ x : Assignment Int,
          q.c.dot (x r.varId) + q.offset +
              RawResult.numbered.y.dot ((q.a.mulVec (x r.varId)).sub q.b) +
              RawResult.numbered.z.dot ((q.g.mulVec (x r.varId)).sub q.h) =
            everyKind.objective.valueAt x 0 +
              (everyKind.constraints.map fun c => c.condition.lagrangeTerm (d c.id) x).sum := by
  have hnd : (everyKind.constraints.map Constraint.id).Nodup := by decide
  obtain ⟨q, r, h, _, hx, hy, hz⟩ := everyKind_toConeProgram
  exact ⟨q, r, h, hnd,
    lagrangian_of_toConeProgram h hnd RawResult.numbered_hasSolution hx.symm hy.symm hz.symm⟩

end Conic
