/-!
# Kinds of cones

The kinds of constraint that can be written, and those among them that a cone program can hold.
-/

namespace Conic

/-- The cone that a constraint puts its arguments in. -/
inductive ConeKind where
  /-- Every entry is zero. -/
  | zero
  /-- No entry is above zero. -/
  | nonpos
  /-- No entry is below zero. -/
  | nonneg
  /-- Second-order cones. -/
  | secondOrder
  /-- Exponential cones. -/
  | exponential
  /-- Positive semidefinite matrices. -/
  | semidefinite
  /-- Three-dimensional power cones. -/
  | power
  deriving DecidableEq, Repr

namespace ConeKind

/-- The written name. -/
def text : ConeKind → String
  | zero => "Zero"
  | nonpos => "NonPos"
  | nonneg => "NonNeg"
  | secondOrder => "SOC"
  | exponential => "ExpCone"
  | semidefinite => "PSD"
  | power => "PowCone3D"

/-- The kinds that a cone program has rows for. -/
def supported : List ConeKind := [zero, nonpos, secondOrder, exponential]

/-- Whether a cone program has rows for this kind. -/
def isSupported (k : ConeKind) : Bool := supported.contains k

end ConeKind

end Conic
