import Conic.InteriorPoint.Embedding

/-!
# Stopping

Three tests decide what a point of the embedding proves: that the program is solved, that it has no
feasible point, or that its dual has none. They measure the point in the units of the program as it
was given. Each test takes its tolerances, so that the same tests also say whether a run that was
cut short came close.

This is a part of the method that `bundled` runs in place of the numeric library
(`InteriorPoint.solver`); no result depends on it.
-/

namespace Conic.InteriorPoint

/-- The errors allowed to a point. -/
structure Tolerances where
  gapAbs : Float
  gapRel : Float
  feasibility : Float
  /-- What a certificate has to prove at least. -/
  certificateAbs : Float
  /-- The error of a certificate over what it proves. -/
  certificateRel : Float
  /-- How many times `τ` the `κ` of a certificate has to be. -/
  certificateRatio : Float

namespace Tolerances

/-- The errors allowed to a solution. -/
def full (settings : SolverSettings) : Tolerances :=
  ⟨settings.gapAbs, settings.gapRel, settings.feasibility, 1e-8, 1e-8, 1e9⟩

/-- The errors allowed to an inaccurate solution. -/
def reduced (settings : SolverSettings) : Tolerances :=
  ⟨settings.reducedGapAbs, settings.reducedGapRel, settings.reducedFeasibility, 5e-12, 5e-5, 1e7⟩

end Tolerances

/-- How good a point is. -/
structure Measures where
  primalObjective : Float
  dualObjective : Float
  gapAbs : Float
  gapRel : Float
  primalError : Float
  dualError : Float
  /-- What the multipliers prove if no point is feasible, and with what error. -/
  primalCertificate : Float × Float
  /-- What the unknowns prove if the dual has no feasible point, and with what error. -/
  dualCertificate : Float × Float
  /-- `κ` over `τ`. -/
  ratio : Float

/-- The largest magnitude of an entry, each in its own unit. -/
def normIn (units v : DenseVector Wide) : Wide := maxNorm (mulEntries units v)

/-- The measures of a point of the program in the units `k`, given the largest entries of the
objective and of the right-hand side in the units of the program. -/
def measures (k : Units) (p : DenseProgram) (costNorm rhsNorm : Wide) (q : Point) : Measures :=
  let r := residuals p q
  let (perUnknown, perRow) := (k.unknowns.map (1 / ·), k.rows.map (1 / ·))
  let (x, z, s) := (normIn k.unknowns q.x, normIn k.rows q.z, normIn perRow q.s)
  let (primal, dual) := (r.cost / q.tau, -r.bound / q.tau)
  let gap := (primal - dual).abs
  { primalObjective := primal.toFloat
    dualObjective := dual.toFloat
    gapAbs := gap.toFloat
    gapRel := (gap / Wide.max 1 (primal.abs.min dual.abs)).toFloat
    primalError := (normIn perRow r.z / q.tau.max (rhsNorm * q.tau + x + s)).toFloat
    dualError := (normIn perUnknown r.x / q.tau.max (costNorm * q.tau + x + z)).toFloat
    primalCertificate := (-r.bound.toFloat, (normIn perUnknown r.pull / Wide.max 1 z).toFloat)
    dualCertificate := (-r.cost.toFloat, (normIn perRow r.rows / Wide.max 1 (x + s)).toFloat)
    ratio := (q.kappa / q.tau).toFloat }

namespace Measures

/-- Whether the point, divided by `τ`, is feasible and optimal within the tolerances. -/
def isSolved (tol : Tolerances) (m : Measures) : Bool :=
  m.ratio ≤ 1 && (m.gapAbs < tol.gapAbs || m.gapRel < tol.gapRel) &&
    m.primalError < tol.feasibility && m.dualError < tol.feasibility

/-- Whether a certificate proves enough with an error that is small beside it, and `τ` is
negligible. -/
def certifies (tol : Tolerances) (m : Measures) (certificate : Float × Float) : Bool :=
  let (value, error) := certificate
  m.ratio > tol.certificateRatio && value > tol.certificateAbs && error < tol.certificateRel * value

/-- What a point can prove. -/
inductive Evidence where
  | optimal
  /-- Multipliers with `A'z = 0` and `b·z < 0`. -/
  | primalInfeasible
  /-- A direction with `A x + s = 0` along which the objective falls forever. -/
  | dualInfeasible

/-- What a point proves within the tolerances. -/
def evidence? (tol : Tolerances) (m : Measures) : Option Evidence :=
  if m.isSolved tol then some .optimal
  else if m.certifies tol m.primalCertificate then some .primalInfeasible
  else if m.certifies tol m.dualCertificate then some .dualInfeasible
  else none

/-- The verdict on full evidence. -/
def Evidence.verdict : Evidence → Verdict
  | optimal => .solved
  | primalInfeasible => .primalInfeasible
  | dualInfeasible => .dualInfeasible

/-- The verdict on evidence within the reduced tolerances. -/
def Evidence.reducedVerdict : Evidence → Verdict
  | optimal => .almostSolved
  | primalInfeasible => .almostPrimalInfeasible
  | dualInfeasible => .almostDualInfeasible

/-- Whether a run has got worse since a point that measured `before` and can hope for nothing more:
it was as good as the duality gap asks for, or an error that is still too large has grown a
hundredfold. -/
def isStuck (settings : SolverSettings) (m before : Measures) : Bool :=
  let worse (error previous : Float) : Bool := error > previous
  let muchWorse (error previous : Float) : Bool :=
    error > settings.feasibility && error > 100 * previous
  (worse m.dualError before.dualError || worse m.primalError before.primalError) &&
    ((m.ratio < 2.220446049250313e-14 &&
        (before.gapAbs < settings.gapAbs || before.gapRel < settings.gapRel)) ||
      (m.ratio < 1 &&
        (muchWorse m.dualError before.dualError || muchWorse m.primalError before.primalError)))

end Measures

end Conic.InteriorPoint
