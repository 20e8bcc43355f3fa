import Conic.Backend
import Conic.Proofs.ConeProgram.Refusal

/-!
# How the kinds of constraints are mixed

The rows of a cone program are sorted by kind, so only the order inside each kind is left of the
order of the constraints (`toConeProgram_shuffled`). What still goes by the order of the whole list
is the width of the variable, taken from its first occurrence; but where there is a cone program all
occurrences have one width, and a list with the same constraints of each kind has the same
occurrences (`SameByKind.constraints_perm`).
-/

namespace Conic

namespace Problem

variable {α : Type}

/-- The second problem has the objective of the first, and the same constraints of each supported
kind in the same order, but no other ones. How the kinds are mixed may differ. -/
structure SameByKind (p p' : Problem α) : Prop where
  sense : p'.sense = p.sense
  objective : p'.objective = p.objective
  ofKind : ∀ k ∈ ConeKind.supported, p'.ofKind k = p.ofKind k
  supported : ∀ c ∈ p'.constraints, c.kind ∈ ConeKind.supported

namespace SameByKind

variable {p p' : Problem α}

theorem coneConstraints_eq (h : SameByKind p p') : p'.coneConstraints = p.coneConstraints := by
  rw [coneConstraints, coneConstraints, h.ofKind .nonpos (by decide),
    h.ofKind .secondOrder (by decide), h.ofKind .exponential (by decide)]

theorem isSupported (h : SameByKind p p') : ∀ c ∈ p'.constraints, c.kind.isSupported := fun c hc =>
  List.contains_iff_mem.2 (h.supported c hc)

/-- Without constraints of other kinds in the first problem, both have the same constraints. -/
theorem constraints_perm (h : SameByKind p p') (hp : ∀ c ∈ p.constraints, c.kind.isSupported) :
    p.constraints.Perm p'.constraints := by
  have hp' := zero_append_cone_perm h.isSupported
  rw [h.ofKind .zero (by decide), h.coneConstraints_eq] at hp'
  exact (zero_append_cone_perm hp).symm.trans hp'

theorem occurrences_perm (h : SameByKind p p') (hp : ∀ c ∈ p.constraints, c.kind.isSupported) :
    p.occurrences.Perm p'.occurrences := by
  rw [occurrences, occurrences, expressions, expressions, h.objective]
  exact (((h.constraints_perm hp).flatMap_right _).cons _).flatMap_right _

end SameByKind

theorem ofList_of_isSupported {p : Problem α} (hp : ∀ c ∈ p.constraints, c.kind.isSupported) :
    ConstraintGroups.ofList p.constraints =
      .ok ⟨p.ofKind .zero, p.ofKind .nonpos, p.ofKind .secondOrder, p.ofKind .exponential⟩ := by
  obtain ⟨g, hg⟩ := fault?_eq_none.1 ((fault?_ofList p).trans (kindFault?_eq_none.2 hp))
  rw [hg, (ConstraintGroups.ofList_eq_ok hg).2]

variable [Zero α] [One α] [Add α] [Mul α] [Neg α]

theorem SameByKind.toConeProgram_eq {p p' : Problem α} (h : SameByKind p p')
    (hp : ∀ c ∈ p.constraints, c.kind.isSupported) (hwidths : p.HasWidths) :
    p'.toConeProgram = p.toConeProgram := by
  have hvariable : p'.singleVariable = p.singleVariable := by
    rw [singleVariable, singleVariable, blocks_eq_of_perm hwidths (h.occurrences_perm hp)]
  have hobjective : p'.scalarObjective = p.scalarObjective := by
    rw [scalarObjective, scalarObjective, h.sense, h.objective]
  have hgroups : ConstraintGroups.ofList p'.constraints =
      ConstraintGroups.ofList p.constraints := by
    rw [ofList_of_isSupported hp, ofList_of_isSupported h.isSupported, h.ofKind .zero (by decide),
      h.ofKind .nonpos (by decide), h.ofKind .secondOrder (by decide),
      h.ofKind .exponential (by decide)]
  rw [toConeProgram, toConeProgram, hvariable, hobjective, hgroups]

/-- However the kinds are mixed, a problem has the same cone program, results are read back alike,
and every backend gives the same solution. -/
theorem toConeProgram_shuffled {p p' : Problem α} (h : SameByKind p p') {q : ConeProgram α}
    {r : Recovery α} (hq : p.toConeProgram = .ok (q, r)) :
    p'.toConeProgram = .ok (q, r) ∧
      (∀ q' r', p'.toConeProgram = .ok (q', r') → ∀ raw, r'.solution raw = r.solution raw) ∧
      ∀ {m : Type → Type} [Monad m] (backend : Backend m α) (request : SolveRequest),
        p'.solveWith backend request = p.solveWith backend request := by
  have hsame :=
    h.toConeProgram_eq (toConeProgram_eq_ok hq).supported (hasWidths_of_toConeProgram hq)
  have hq' := hsame.trans hq
  refine ⟨hq', fun q' r' h' raw => ?_, fun backend request => ?_⟩
  · rw [hq'] at h'
    cases h'
    rfl
  · rw [solveWith, solveWith, hsame]

/-- The constraints of `everyKind` in the order of the rows. -/
def everyKindSorted : Problem Int :=
  { everyKind with constraints := everyKind.ofKind .zero ++ everyKind.coneConstraints }

theorem everyKindSorted_sameByKind : SameByKind everyKind everyKindSorted where
  sense := rfl
  objective := rfl
  ofKind k hk := by
    simp only [ConeKind.supported, List.mem_cons, List.not_mem_nil, or_false] at hk
    rcases hk with rfl | rfl | rfl | rfl <;> rfl
  supported := by decide

theorem everyKind_shuffled : SameByKind everyKind everyKindSorted ∧
    ∃ q r, everyKind.toConeProgram = .ok (q, r) ∧ everyKindSorted.toConeProgram = .ok (q, r) := by
  obtain ⟨q, r, h, -⟩ := everyKind_toConeProgram
  exact ⟨everyKindSorted_sameByKind, q, r, h,
    (toConeProgram_shuffled everyKindSorted_sameByKind h).1⟩

end Problem

end Conic
