import Conic.Error

/-!
# Statuses

A solver ends with an exit code; a status says what the code means. Codes outside the table are an
error and never some default.
-/

namespace Conic

/-- What became of a problem. -/
inductive SolveStatus where
  | optimal
  | infeasible
  | unbounded
  | optimalInaccurate
  | infeasibleInaccurate
  | unboundedInaccurate
  | solverError
  deriving DecidableEq, Repr

/-! ## Exit codes -/

namespace ExitCode

/-- Solved. -/
def optimal : Int := 0

/-- Proved to have no feasible point. -/
def primalInfeasible : Int := 1

/-- Proved to have no bound. -/
def dualInfeasible : Int := 2

/-- Added to the three codes above for a result of reduced accuracy. -/
def inaccurate : Int := 10

/-- Stopped at a limit. -/
def iterationLimit : Int := -1

/-- No reliable direction was found. -/
def numericalTrouble : Int := -2

/-- An iterate left its cone. -/
def outsideCone : Int := -3

/-- Interrupted. -/
def interrupted : Int := -4

/-- An unknown trouble. -/
def fatal : Int := -7

end ExitCode

namespace SolveStatus

/-- The written name. -/
def text : SolveStatus → String
  | optimal => "optimal"
  | infeasible => "infeasible"
  | unbounded => "unbounded"
  | optimalInaccurate => "optimal_inaccurate"
  | infeasibleInaccurate => "infeasible_inaccurate"
  | unboundedInaccurate => "unbounded_inaccurate"
  | solverError => "solver_error"

/-- Whether the status comes with a point and its multipliers. -/
def hasSolution (s : SolveStatus) : Bool := s = optimal || s = optimalInaccurate

/-- Whether the status holds with reduced accuracy only. -/
def isInaccurate (s : SolveStatus) : Bool :=
  s = optimalInaccurate || s = infeasibleInaccurate || s = unboundedInaccurate

/-- The exit codes and their meaning, by ascending code. -/
def table : List (Int × SolveStatus) :=
  [(ExitCode.fatal, solverError),
   (ExitCode.interrupted, solverError),
   (ExitCode.outsideCone, solverError),
   (ExitCode.numericalTrouble, solverError),
   (ExitCode.iterationLimit, solverError),
   (ExitCode.optimal, optimal),
   (ExitCode.primalInfeasible, infeasible),
   (ExitCode.dualInfeasible, unbounded),
   (ExitCode.optimal + ExitCode.inaccurate, optimalInaccurate),
   (ExitCode.primalInfeasible + ExitCode.inaccurate, infeasibleInaccurate),
   (ExitCode.dualInfeasible + ExitCode.inaccurate, unboundedInaccurate)]

/-- The meaning of an exit code. -/
def ofExitCode (code : Int) : Except Error SolveStatus :=
  match table.lookup code with
  | some s => .ok s
  | none => .error (.unknownExitCode code)

end SolveStatus

end Conic
