import Conic.InteriorPoint.ConeScaling

/-!
# Step lengths

How far slack and multiplier can go along a direction before one of them leaves its cone.

This is a part of the method that `bundled` runs in place of the numeric library
(`InteriorPoint.solver`); no result depends on it.
-/

namespace Conic.InteriorPoint

/-- The longest step, up to a limit, from nonnegative numbers to nonnegative ones. -/
def nonnegStep (limit : Wide) (v d : DenseVector Wide) : Wide :=
  (List.zip v d).foldl (fun a (p, q) => if q < 0 then a.min (-p / q) else a) limit

/-- The first step of the sequence `a`, `0.8 a`, `0.64 a`, … that passes a test; zero if they get
too short. -/
def backedOff (test : Wide → Bool) : Nat → Wide → Wide
  | 0, _ => 0
  | fuel + 1, a =>
    let shorter := .ratio 4 5 * a
    if test a then a
    else if shorter < .ratio 1 10000 then 0
    else backedOff test fuel shorter

/-- The longest step, up to a limit, that keeps slack and multiplier of a cone inside. -/
def coneStep (cone : Cone) (limit : Wide) (s ds z dz : DenseVector Wide) : Wide :=
  match cone with
  | .zero _ => limit
  | .nonneg _ => nonnegStep (nonnegStep limit z dz) s ds
  | .secondOrder _ => LorentzCone.longestStep (LorentzCone.longestStep limit z dz) s ds
  | .exponential =>
    let stays (inside : Triple → Bool) (v d : DenseVector Wide) : Wide :=
      backedOff (fun a => inside (.ofVector (addScaled v a d))) 50 limit
    (stays ExpCone.isDualInterior z dz).min (stays ExpCone.isInterior s ds)

end Conic.InteriorPoint
