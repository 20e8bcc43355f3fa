import Conic.Proofs.Segments

/-!
# The outcome of reading a result back

Results and recoveries may come from anywhere, so nothing about their lengths is given. The exit
code decides first: it is unknown, or its status comes without a solution, or with one. Only in the
last case anything else is looked at, the lengths of the three vectors one after the other; if they
fit, nothing can fail any more and the solution is complete (`Recovery.solution_classified`).
-/

namespace Conic

/-! ## Exit codes -/

namespace SolveStatus

theorem ofExitCode_of_mem {code : Int} {status : SolveStatus} (h : (code, status) ∈ table) :
    ofExitCode code = .ok status := by
  -- no code stands in the table twice
  have hlookup : ∀ t ∈ table, table.lookup t.1 = some t.2 := by decide
  rw [ofExitCode, hlookup _ h]

theorem ofExitCode_of_notMem {code : Int} (h : ∀ status, (code, status) ∉ table) :
    ofExitCode code = .error (.unknownExitCode code) := by
  have hnone : table.lookup code = none := by
    rw [List.lookup_eq_none_iff]
    rintro ⟨other, status⟩ hmem
    rw [bne_iff_ne]
    rintro rfl
    exact h status hmem
  rw [ofExitCode, hnone]

end SolveStatus

variable {α : Type}

/-! ## Lengths -/

/-- The statistics of a run, as they are reported. -/
def RawResult.stats (raw : RawResult α) : SolveStats :=
  ⟨raw.solveTime, raw.setupTime, raw.iterations⟩

/-- The vectors of a result in the order in which they are looked at, each with the length it should
have and the length it has. -/
def Recovery.lengths (r : Recovery α) (raw : RawResult α) : List (ResultVector × Nat × Nat) :=
  [(.primal, r.varSize, raw.x.length),
   (.equalityDuals, (r.equalities.map Segment.size).sum, raw.y.length),
   (.coneDuals, (r.cones.map Segment.size).sum, raw.z.length)]

/-- The first vector of a wrong length is told, with both lengths. -/
def Recovery.lengthFault? (r : Recovery α) (raw : RawResult α) : Option Error :=
  ((r.lengths raw).find? fun l => l.2.1 ≠ l.2.2).map fun l => .dimensionMismatch l.1 l.2.1 l.2.2

theorem Segment.duals_of_length_ne [Zero α] {segments : List Segment} {v : DenseVector α}
    (h : v.length ≠ (segments.map size).sum) (o : ExpOrder) (what : ResultVector) :
    duals segments o what v = .error (.dimensionMismatch what (segments.map size).sum v.length) :=
  if_neg h

/-! ## Outcomes -/

namespace Recovery

variable [Zero α] [Add α] {r : Recovery α} {raw : RawResult α}

theorem solution_of_notMem_table (h : ∀ status, (raw.exitCode, status) ∉ SolveStatus.table) :
    r.solution raw = .error (.unknownExitCode raw.exitCode) := by
  rw [solution, SolveStatus.ofExitCode_of_notMem h]
  rfl

/-- Everything there is to say on a result whose status comes with a solution. -/
theorem solution_of_hasSolution {status : SolveStatus}
    (hstatus : SolveStatus.ofExitCode raw.exitCode = .ok status) (h : status.hasSolution) :
    (∃ e, r.lengthFault? raw = some e ∧ r.solution raw = .error e) ∨
      (r.lengthFault? raw = none ∧ ∃ duals,
        r.solution raw = .ok ⟨status, some (raw.primalCost + r.offset),
          some (.singleton r.varId raw.x), some duals, raw.stats⟩ ∧
        Segment.CutsInto (r.equalities ++ r.cones) .standard (raw.y ++ raw.z) duals) := by
  have hstandard : ExpOrder.standard.InRange := by decide
  rw [solution, hstatus]
  show (∃ e, _ ∧ (if status.hasSolution then _ else _) = _) ∨
    (_ ∧ ∃ duals, (if status.hasSolution then _ else _) = _ ∧ _)
  rw [if_pos h]
  by_cases hx : raw.x.length = r.varSize
  · rw [if_pos hx]
    by_cases hy : raw.y.length = (r.equalities.map Segment.size).sum
    · obtain ⟨equality, hequality, hcutEq⟩ := Segment.duals_eq_ok hstandard hy .equalityDuals
      rw [hequality]
      by_cases hz : raw.z.length = (r.cones.map Segment.size).sum
      · obtain ⟨cone, hcone, hcutCone⟩ := Segment.duals_eq_ok hstandard hz .coneDuals
        rw [hcone]
        refine .inr ⟨?_, _, rfl, hcutEq.append hy hcutCone⟩
        simp [lengthFault?, lengths, hx, hy, hz]
      · rw [Segment.duals_of_length_ne hz]
        refine .inl ⟨.dimensionMismatch .coneDuals _ _, ?_, rfl⟩
        simp [lengthFault?, lengths, hx, hy, Ne.symm hz]
    · rw [Segment.duals_of_length_ne hy]
      refine .inl ⟨.dimensionMismatch .equalityDuals _ _, ?_, rfl⟩
      simp [lengthFault?, lengths, hx, Ne.symm hy]
  · rw [if_neg hx]
    refine .inl ⟨.dimensionMismatch .primal _ _, ?_, rfl⟩
    simp [lengthFault?, lengths, Ne.symm hx]

theorem solution_of_mem_table {status : SolveStatus}
    (hmem : (raw.exitCode, status) ∈ SolveStatus.table) (h : ¬ status.hasSolution) :
    r.solution raw = .ok ⟨status, none, none, none, raw.stats⟩ :=
  solution_of_not_hasSolution (SolveStatus.ofExitCode_of_mem hmem) h

/-- An error is one of two, and a solution is complete or has nothing but its status. -/
theorem solution_cases (r : Recovery α) (raw : RawResult α) :
    (∃ e, r.solution raw = .error e ∧
      (e = .unknownExitCode raw.exitCode ∨ r.lengthFault? raw = some e)) ∨
    ∃ s, r.solution raw = .ok s ∧ s.optimalValue.isSome = s.status.hasSolution ∧
      s.values.isSome = s.status.hasSolution ∧ s.duals.isSome = s.status.hasSolution := by
  by_cases hmem : ∃ status, (raw.exitCode, status) ∈ SolveStatus.table
  · obtain ⟨status, hmem⟩ := hmem
    by_cases h : status.hasSolution
    · obtain ⟨e, hfault, he⟩ | ⟨-, duals, hs, -⟩ :=
        solution_of_hasSolution (r := r) (SolveStatus.ofExitCode_of_mem hmem) h
      · exact .inl ⟨e, he, .inr hfault⟩
      · exact .inr ⟨_, hs, h.symm, h.symm, h.symm⟩
    · have hnot : false = status.hasSolution := (Bool.eq_false_iff.2 h).symm
      exact .inr ⟨_, solution_of_mem_table hmem h, hnot, hnot, hnot⟩
  · exact .inl ⟨_, solution_of_notMem_table (not_exists.1 hmem), .inl rfl⟩

/-- Reading a result back has one of three outcomes, whatever the result and the recovery are. A
code that is not in the table is unknown. A status without a solution comes with the statistics of
the run and nothing else, and is the same for all results with this code and these statistics. With
a solution, the first vector of a wrong length is told by its name; if there is none, there is a
complete solution: the cost with the constant of the objective, the point, and the dual values that
all segments cut out of both dual vectors, where a later segment replaces an earlier one of the same
identifier. No other error arises, and a solution is never filled in part. -/
theorem solution_classified (r : Recovery α) (raw : RawResult α) :
    ((∀ status, (raw.exitCode, status) ∉ SolveStatus.table) →
      r.solution raw = .error (.unknownExitCode raw.exitCode)) ∧
    (∀ status, (raw.exitCode, status) ∈ SolveStatus.table → ¬ status.hasSolution →
      r.solution raw = .ok ⟨status, none, none, none, raw.stats⟩ ∧
      ∀ (r' : Recovery α) (raw' : RawResult α), raw'.exitCode = raw.exitCode →
        raw'.stats = raw.stats →
        r'.solution raw' = r.solution raw) ∧
    (∀ status, (raw.exitCode, status) ∈ SolveStatus.table → status.hasSolution →
      (∀ e, r.solution raw = .error e ↔ r.lengthFault? raw = some e) ∧
      (r.lengthFault? raw = none → ∃ duals,
        r.solution raw = .ok ⟨status, some (raw.primalCost + r.offset),
          some (.singleton r.varId raw.x), some duals, raw.stats⟩ ∧
        Segment.CutsInto (r.equalities ++ r.cones) .standard (raw.y ++ raw.z) duals)) ∧
    (r.lengths raw).map (·.1.text) = ["primal solution", "equality duals", "cone duals"] ∧
    (∀ e, r.solution raw = .error e →
      e = .unknownExitCode raw.exitCode ∨ r.lengthFault? raw = some e) ∧
    ∀ s, r.solution raw = .ok s → s.optimalValue.isSome = s.status.hasSolution ∧
      s.values.isSome = s.status.hasSolution ∧ s.duals.isSome = s.status.hasSolution := by
  refine ⟨solution_of_notMem_table, fun status hmem h => ?_, fun status hmem h => ?_, rfl,
    fun e he => ?_, fun s hs => ?_⟩
  · have hresult := solution_of_mem_table (r := r) hmem h
    refine ⟨hresult, fun r' raw' hcode hstats => ?_⟩
    rw [hresult, ← hstats]
    exact solution_of_mem_table (hcode ▸ hmem) h
  · obtain ⟨e, hfault, he⟩ | ⟨hfault, duals, hs, hcuts⟩ :=
      solution_of_hasSolution (r := r) (SolveStatus.ofExitCode_of_mem hmem) h
    · rw [hfault, he]
      refine ⟨fun e' => ?_, fun h => nomatch h⟩
      rw [Except.error.injEq, Option.some.injEq]
    · rw [hfault, hs]
      exact ⟨fun e => iff_of_false nofun nofun, fun _ => ⟨duals, rfl, hcuts⟩⟩
  · obtain ⟨e', he', hcause⟩ | ⟨s, hs, -⟩ := solution_cases r raw
    · rw [he'] at he
      cases he
      exact hcause
    · rw [hs] at he
      cases he
  · obtain ⟨e, he, -⟩ | ⟨s', hs', hcomplete⟩ := solution_cases r raw
    · rw [he] at hs
      cases hs
    · rw [hs'] at hs
      cases hs
      exact hcomplete

/-- Two runs of segments that share an identifier; the cones do not fill their last triple. -/
def overlapping : Recovery Int where
  varId := ⟨0⟩
  varSize := 2
  offset := 5
  equalities := [⟨⟨1⟩, .zero, 2⟩, ⟨⟨2⟩, .zero, 1⟩]
  cones := [⟨⟨2⟩, .exponential, 4⟩]

theorem overlapping_outcomes :
    let raw : RawResult Int := ⟨[1, 2], [7, 8, 9], [11, 12, 13, 14], 10, 3, 3, 1, 0, 0⟩
    (∃ duals, overlapping.solution raw =
        .ok ⟨.optimalInaccurate, some 8, some (.singleton ⟨0⟩ [1, 2]), some duals, raw.stats⟩ ∧
      duals.find? ⟨1⟩ = some [7, 8] ∧ duals.find? ⟨2⟩ = some [11, 13, 12, 0]) ∧
    overlapping.solution { raw with y := [7], z := [] } =
      .error (.dimensionMismatch .equalityDuals 3 1) ∧
    overlapping.solution { raw with exitCode := 1, x := [] } =
      .ok ⟨.infeasible, none, none, none, raw.stats⟩ ∧
    overlapping.solution { raw with exitCode := 3 } = .error (.unknownExitCode 3) := by
  intro raw
  obtain ⟨-, -, hpresent, -⟩ := solution_classified overlapping raw
  obtain ⟨-, -, hwrong, -⟩ := solution_classified overlapping { raw with y := [7], z := [] }
  obtain ⟨-, hfailure, -⟩ := solution_classified overlapping { raw with exitCode := 1, x := [] }
  obtain ⟨hunknown, -⟩ := solution_classified overlapping { raw with exitCode := 3 }
  have htable : ∀ status, (3, status) ∉ SolveStatus.table := by
    intro status
    cases status <;> decide
  obtain ⟨duals, hs, hcuts⟩ := (hpresent .optimalInaccurate (by decide) rfl).2 rfl
  refine ⟨⟨duals, hs, ?_, ?_⟩, ?_, ?_, hunknown htable⟩
  · obtain ⟨d, hd, hreads⟩ := hcuts.value 0 (by decide) (by decide)
    obtain rfl : d = [7, 8] := hreads.plain (by decide)
    exact hd
  · cases hs
    rfl
  · exact ((hwrong .optimalInaccurate (by decide) rfl).1 _).2 rfl
  · exact (hfailure .infeasible (by decide) (by decide)).1

end Recovery

end Conic
