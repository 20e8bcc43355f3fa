import Conic.Proofs.ConeProgram.Refusal
import Conic.Proofs.ConeProgram.Shape
import Conic.Proofs.Identifiers

/-!
# From a problem to its solution

Once the bundled backend has a result for the cone program of a problem, reading it back cannot fail
(`solution_of_backend`). The exit codes of its verdicts are in the table of statuses, and the
lengths that it checks on the stack are those that the segments of the recovery add up to, because
program and recovery agree on their sizes. A solution then has a value for the variable and a dual
value for each constraint, as long as they are large; the identifiers handed out to the constraints
keep their dual values apart.
-/

namespace Conic

variable {α : Type}

/-! ## Results of the backend -/

/-- Every exit code of the bundled solver stands for a status. -/
theorem Verdict.exists_status (v : Verdict) :
    ∃ status, SolveStatus.ofExitCode v.exitCode = .ok status := by
  cases v <;> exact ⟨_, rfl⟩

/-- The vectors of a result are as long as the program wants them, and its exit code is that of a
verdict. -/
structure RawResult.FitsProgram (raw : RawResult α) (q : ConeProgram α) : Prop where
  length_x : raw.x.length = q.numVars
  length_y : raw.y.length = q.a.nrows
  length_z : raw.z.length = q.g.nrows
  exitCode : ∃ v : Verdict, raw.exitCode = v.exitCode

/-- Only outcomes that fit the stack become results, and their multipliers are shared out among the
rows. -/
theorem SolverOutcome.fitsProgram_of_rawResult [Zero α] {o : SolverOutcome α} {q : ConeProgram α}
    (hq : q.HoldsTriples) {raw : RawResult α} (h : o.rawResult q = .ok raw) :
    raw.FitsProgram q := by
  rw [rawResult] at h
  split at h
  case isFalse => cases h
  case isTrue hlen =>
    obtain ⟨hz, hx⟩ := hlen
    rw [hq.length_rowOrder] at hz
    obtain ⟨y, z, hduals, -, hy, hz'⟩ := ConeProgram.exists_unstackDuals hq hz
    rw [hduals] at h
    cases h
    exact ⟨hx, hy, hz', o.verdict, rfl⟩

theorem ConeSolver.fitsProgram_of_solve [Zero α] [Add α] [FiniteTest α] {solver : ConeSolver α}
    {q : ConeProgram α} (hq : q.HoldsTriples) {options : SolverOptions} {raw : RawResult α}
    (h : ConeSolver.solve solver q options = .ok raw) : raw.FitsProgram q := by
  rw [solve] at h
  obtain ⟨_, -, h⟩ := bind_eq_ok.1 h
  obtain ⟨settings, -, h⟩ := bind_eq_ok.1 h
  split at h
  case h_1 => cases h
  case h_2 stack hstack =>
    split at h
    case h_1 outcome houtcome => exact SolverOutcome.fitsProgram_of_rawResult hq h
    case h_2 => cases h

/-! ## Reading back -/

section Reading

variable [Zero α] [One α] [Add α] [Mul α] [Neg α] {p : Problem α} {q : ConeProgram α}
    {r : Recovery α}

theorem Assembled.exists_solution (h : Assembled p q r) (hwidth : q.numVars = r.varSize)
    {raw : RawResult α} (hraw : raw.FitsProgram q) :
    ∃ s, r.solution raw = .ok s ∧ (s.status.hasSolution →
      s.values = some (.singleton r.varId raw.x) ∧ s.duals = some (r.dualsOf raw.y raw.z)) := by
  obtain ⟨v, hv⟩ := hraw.exitCode
  obtain ⟨status, hstatus⟩ := v.exists_status
  rw [← hv] at hstatus
  by_cases hpresent : status.hasSolution
  · have hfits := h.fits (hraw.length_x.trans hwidth) hraw.length_y hraw.length_z
    obtain ⟨s, hs, -, hvalues, hduals⟩ :=
      Recovery.solution_eq_ok ⟨status, hstatus, hpresent⟩ hfits h.three_dvd_size
    exact ⟨s, hs, fun _ => ⟨hvalues, hduals⟩⟩
  · exact ⟨_, Recovery.solution_of_not_hasSolution hstatus hpresent, fun hs => absurd hs hpresent⟩

/-- The variable of a cone program is that of its problem. -/
theorem Problem.singleVariable_of_toConeProgram (h : p.toConeProgram = .ok (q, r)) :
    p.singleVariable = .ok r.block := by
  simp only [toConeProgram, bind_eq_ok] at h
  obtain ⟨v, hv, _, -, _, -, _, -, _, -, _, -, h⟩ := h
  obtain ⟨id, size, name⟩ := v
  obtain rfl : name = none := name_of_singleVariable hv
  cases h
  exact hv

/-- Solving a problem is solving its cone program and reading the result back. -/
theorem Problem.solveWith_eq (hq : p.toConeProgram = .ok (q, r)) {backend : Backend Id α}
    {request : SolveRequest} {raw : RawResult α} (hraw : Id.run (backend q request) = .ok raw) :
    Id.run (p.solveWith backend request) = r.solution raw := by
  have hraw : backend q request = pure (.ok raw) := hraw
  rw [solveWith, hq]
  simp only [hraw, pure_bind]
  rfl

/-- Where the backend has a result, the problem has a solution: reading back does not fail, whatever
the solver, its verdict and its vectors are. A status with a point comes with a value of the
variable of its size, and with a dual value for each constraint of its size. -/
theorem Problem.solution_of_backend [FiniteTest α] (hq : p.toConeProgram = .ok (q, r))
    (solver : ConeSolver α) (request : SolveRequest) {raw : RawResult α}
    (hraw : Id.run (ConeSolver.backend solver q request) = .ok raw) :
    ∃ s, r.solution raw = .ok s ∧
      Id.run (p.solveWith (ConeSolver.backend solver) request) = .ok s ∧
      SolveStatus.ofExitCode raw.exitCode = .ok s.status ∧
      (s.status.hasSolution →
        (∃ v n x, p.blocks.entries = [(v, n)] ∧ s.value? v = some x ∧ x.length = n) ∧
        (p.Issued → ∀ c ∈ p.constraints, ∃ d, s.dual? c.id = some d ∧ d.length = c.size)) := by
  have ha := toConeProgram_eq_ok hq
  have hwidth : q.numVars = r.varSize := ha.agrees.length_c
  have hfits : raw.FitsProgram q :=
    ConeSolver.fitsProgram_of_solve ha.agrees.stackable.holdsTriples hraw
  obtain ⟨s, hs, hvectors⟩ := ha.exists_solution hwidth hfits
  refine ⟨s, hs, (solveWith_eq hq hraw).trans hs, Recovery.status_of_solution hs,
    fun hpresent => ?_⟩
  obtain ⟨hvalues, hduals⟩ := hvectors hpresent
  constructor
  · have hentries := entries_of_singleVariable (singleVariable_of_toConeProgram hq)
    refine ⟨r.varId, r.varSize, raw.x, hentries, ?_, hfits.length_x.trans hwidth⟩
    rw [Solution.value?, hvalues]
    exact SortedMap.find?_singleton_self r.varId raw.x
  · intro hissued c hc
    obtain ⟨d, hd, c', hc', hid, hlen⟩ := ha.exists_dual_of_id hfits.length_y hfits.length_z hc
    -- the dual value belongs to a constraint with the same identifier, which is the same constraint
    obtain rfl : c' = c := hissued.eq_of_id_eq hc' hc hid
    refine ⟨d, ?_, hlen⟩
    rw [Solution.dual?, hduals]
    exact hd

end Reading

/-- The calls that make the variable and the constraints of `Problem.everyKind`. One of them
fails. -/
def Call.everyKind : List (Call Int) :=
  let x : AffineExpr Int := .ofVariable ⟨⟨0⟩, 3, none⟩
  [.block 3 none, .expCone (x.pick [0]) (x.pick [1]) (x.pick [2]),
    .soc (x.pick [0, 1]) (x.pick [2]),
    .socColumns (x.pick [0, 1]) (x.pick [2, 1, 1, 1]).neg, .zero (x.sum.plus (-3)),
    .nonpos ((x.scale 2).plus (-9)), .expCone (.ofScalar 1) (x.pick [2]) (x.pick [1]),
    .zero (x.pick [1])]

theorem Problem.everyKind_issued : everyKind.Issued := by
  refine ⟨Call.everyKind, .full, fun c hc => ?_⟩
  have hmade : (Call.run Call.everyKind .full).1 =
      .block ⟨⟨0⟩, 3, none⟩ :: everyKind.constraints.map .constraint := rfl
  rw [hmade]
  exact List.mem_cons_of_mem _ (List.mem_map_of_mem hc)

/-- An outcome for the stack of `Problem.everyKind` whose multipliers tell their rows. -/
def SolverOutcome.numbered : SolverOutcome Int where
  verdict := .almostSolved
  x := [4, 0, -1]
  z := [1, 2, 11, 12, 13, 21, 22, 23, 31, 32, 33, 41, 42, 43, 51, 52, 53]
  primalObjective := 3
  dualObjective := 3
  iterations := 1
  setupTime := 0
  solveTime := 0

theorem Problem.everyKind_solution :
    ∃ q r raw s, everyKind.toConeProgram = .ok (q, r) ∧
      Id.run (ConeSolver.backend (fun _ _ => some .numbered) q {}) = .ok raw ∧ everyKind.Issued ∧
      r.solution raw = .ok s ∧ s.status = .optimalInaccurate ∧
      (∃ v n x, everyKind.blocks.entries = [(v, n)] ∧ s.value? v = some x ∧ x.length = n) ∧
      ∀ c ∈ everyKind.constraints, ∃ d, s.dual? c.id = some d ∧ d.length = c.size := by
  obtain ⟨q, r, raw, hq, hraw, hcode⟩ : ∃ q r raw, everyKind.toConeProgram = .ok (q, r) ∧
      Id.run (ConeSolver.backend (fun _ _ => some .numbered) q {}) = .ok raw ∧ raw.exitCode = 10 :=
    ⟨_, _, _, rfl, rfl, rfl⟩
  obtain ⟨s, hs, -, hstatus, hpresent⟩ := solution_of_backend hq _ _ hraw
  rw [hcode] at hstatus
  have hinaccurate : s.status = .optimalInaccurate := (Except.ok.inj hstatus).symm
  obtain ⟨hvalue, hduals⟩ := hpresent (by rw [hinaccurate]; rfl)
  exact ⟨q, r, raw, s, hq, hraw, everyKind_issued, hs, hinaccurate, hvalue, hduals everyKind_issued⟩

end Conic
