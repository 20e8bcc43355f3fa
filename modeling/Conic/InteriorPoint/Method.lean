import Conic.InteriorPoint.Start
import Conic.InteriorPoint.Stopping
import Conic.InteriorPoint.Vacuous

/-!
# The path-following method

Each iteration first looks how far the Newton step towards the end of the central path leads, and
then takes a step that is centred the more the shorter that one was, and that allows for its
second-order effect. Where some cone is not symmetric and a step gets short, the run goes on with
plain Hessians as the matrices of such cones.

The program that is modelled leaves the numeric work to a library of its own. This method takes the
place of the library, so that `bundled` runs. No result is about it: the results on backends hold of
any solver.
-/

namespace Conic.InteriorPoint

/-- The part of the way to the boundary that a step goes. -/
def stepFraction : Wide := .ratio 99 100

/-- Back off from a step until the barrier is small enough. -/
def nearPath (p : DenseProgram) (q d : Point) : Nat → Wide → Wide
  | 0, a => a
  | fuel + 1, a =>
    if barrier p (q.move a d) < 1 then a else nearPath p q d fuel (.ratio 4 5 * a)

/-- The scalings at a point; none if it is not inside the cones. -/
def scalings? (p : DenseProgram) (plain : Bool) (q : Point) : Option (List ConeScaling) :=
  let plainLevel := if plain then some (level p q) else none
  ((pieces p.cones q.s).zip (pieces p.cones q.z)).mapM fun ((cone, s), (_, z)) =>
    ConeScaling.at? plainLevel cone s z

/-- The direction of an iteration. The first one trusts the second-order effect only as far as its
Newton step leads. -/
def direction (k : NewtonSystem) (isFirst : Bool) (q : Point) : Point :=
  let p := k.program
  let r := residuals p q
  let constant := k.constant
  let ahead := k.step constant q ⟨r.x, r.z, r.tau, q.tau * q.kappa, q.s⟩
  let a := longestStep p q ahead
  let sigma := (1 - a) * (1 - a) * (1 - a)
  let weight := if isFirst then a else 1
  let target := sigma * level p q
  let slack := List.zipWith (fun part (scaling : ConeScaling) =>
      scaling.centring target part.ds (DenseVector.scale part.dz weight))
    (coneParts p q ahead) k.scalings
  k.step constant q {
    x := r.x.scale (1 - sigma)
    z := r.z.scale (1 - sigma)
    tau := (1 - sigma) * r.tau
    kappa := q.tau * q.kappa + weight * ahead.tau * ahead.kappa - target
    slack := slack.flatten }

/-- One iteration; none if the step would be too short to be of use. -/
def iterate? (p : DenseProgram) (isFirst plain : Bool) (scalings : List ConeScaling) (q : Point) :
    Option Point :=
  let d := direction (.of p scalings) isFirst q
  let a := stepFraction * longestStep p q d
  let (a, least) :=
    if isSymmetric p then (a, Wide.ratio 1 10000)
    else if plain then (nearPath p q d 50 a, .ratio 1 10000)
    else (a, .ratio 1 10)
  if least < a then some (q.move a d) else none

/-- The time that is charged for a number of iterations. The method has no clock: it counts ten
microseconds for each iteration and one for getting ready. -/
def elapsed (iterations : Nat) : Float := 1e-6 + 1e-5 * iterations.toFloat

/-- A point with its measures. -/
structure Measured where
  point : Point
  measures : Measures

/-- Where a run has got to. -/
structure Progress where
  iterations : Nat
  /-- Whether the matrices of cones that are not symmetric are plain Hessians. -/
  plain : Bool
  current : Measured
  previous : Option Measured

/-- The end of a run. -/
structure Ending where
  verdict : Verdict
  iterations : Nat
  last : Measured

namespace Progress

/-- The end of a run that goes no further: what its last point proves within the reduced tolerances,
or else the reason to stop. -/
def stop (settings : SolverSettings) (g : Progress) (reason : Verdict) : Ending :=
  let verdict := match g.current.measures.evidence? (.reduced settings) with
    | some e => e.reducedVerdict
    | none => reason
  ⟨verdict, g.iterations, g.current⟩

/-- Whether the run is stuck. -/
def isStuck (settings : SolverSettings) (g : Progress) : Bool :=
  match g.previous with
  | some before => 1 < g.iterations && g.current.measures.isStuck settings before.measures
  | none => false

/-- The state after one iteration, or the end of the run. -/
def next (settings : SolverSettings) (p : DenseProgram) (measure : Point → Measures)
    (g : Progress) : Ending ⊕ Progress :=
  match g.current.measures.evidence? (.full settings) with
  | some e => .inl ⟨e.verdict, g.iterations, g.current⟩
  | none =>
    let stuck := g.isStuck settings
    let mayTurnPlain := !isSymmetric p && !g.plain
    if !stuck && settings.maxIterations ≤ g.iterations then .inl (g.stop settings .iterationLimit)
    else if !stuck && settings.timeLimit < elapsed g.iterations then
      .inl (g.stop settings .timeLimit)
    else
      let g' := if stuck then { g with current := g.previous.getD g.current, plain := true } else g
      if stuck && !mayTurnPlain then .inl (g'.stop settings .insufficientProgress)
      else
        match scalings? p g'.plain g'.current.point with
        | none => .inl (g'.stop settings .numericalError)
        | some scalings =>
          match iterate? p (g.iterations = 0) g'.plain scalings g'.current.point with
          | some q => .inr ⟨g.iterations + 1, g'.plain, ⟨q, measure q⟩, some g'.current⟩
          | none =>
            if !isSymmetric p && !g'.plain then
              .inr { g' with iterations := g.iterations + 1, plain := true }
            else .inl (g'.stop settings .insufficientProgress)

/-- Iterate at most `fuel` times. -/
def run (settings : SolverSettings) (p : DenseProgram) (measure : Point → Measures) :
    Nat → Progress → Ending
  | 0, g => g.stop settings .iterationLimit
  | fuel + 1, g =>
    match g.next settings p measure with
    | .inl ending => ending
    | .inr g' => run settings p measure fuel g'

end Progress

/-- Whether a verdict says that a program or its dual has no feasible point. -/
def isInfeasibility : Verdict → Bool
  | .primalInfeasible | .dualInfeasible => true
  | .almostPrimalInfeasible | .almostDualInfeasible => true
  | _ => false

/-- The bundled solver, for stacks without a quadratic part. It breaks down on a program without
unknowns and without rows that say anything. The point of a run that proved infeasibility is the
certificate itself, not divided by `τ`. -/
def solver : ConeSolver Float := fun settings program =>
  let kept := tellingRows program.cones program.rhs
  let given := DenseProgram.ofStacked (restrict program kept)
  if given.c.isEmpty && given.b.isEmpty then none
  else
    let units := Units.ofProgram given
    let p := units.apply given
    let measure := measures units p (maxNorm given.c) (maxNorm given.b)
    let first := start p
    let ending := Progress.run settings p measure (settings.maxIterations + 2)
      ⟨0, false, ⟨first, measure first⟩, none⟩
    let q := ending.last.point
    let a := if isInfeasibility ending.verdict then 1 else 1 / q.tau
    some {
      verdict := ending.verdict
      x := narrow (mulEntries units.unknowns (q.x.scale a))
      z := spread kept (narrow (mulEntries units.rows (q.z.scale a)))
      primalObjective := ending.last.measures.primalObjective
      dualObjective := ending.last.measures.dualObjective
      iterations := ending.iterations
      setupTime := elapsed 0
      solveTime := elapsed ending.iterations }

end Conic.InteriorPoint
