import Conic.ConeProgram.Assembly
import Conic.Recovery

/-!
# Solving with a backend

A backend is whatever solves cone programs. It may run in any monad, so that it can also be a
program that is called or a script that is played back. Options and flags reach it untouched.
-/

namespace Conic

/-- The flags and options of a call. -/
structure SolveRequest where
  warmStart : Bool := false
  verbose : Bool := false
  options : SolverOptions := .empty

/-- A solver of cone programs. -/
abbrev Backend (m : Type → Type) (α : Type) :=
  ConeProgram α → SolveRequest → m (Except Error (RawResult α))

/-- The name under which cone programs are solved. -/
def solverName : String := "ECOS"

/-- Whether variables can be restricted to whole numbers. -/
def mixedInteger : Bool := false

/-- Turn a problem into a cone program, solve it and recover the solution. -/
def Problem.solveWith {m : Type → Type} [Monad m] {α : Type} [Zero α] [One α] [Add α] [Mul α]
    [Neg α] (backend : Backend m α) (p : Problem α) (request : SolveRequest) :
    m (Except Error (Solution α)) :=
  match p.toConeProgram with
  | .error e => pure (.error e)
  | .ok (program, recovery) => do
    match ← backend program request with
    | .error e => return .error e
    | .ok raw => return recovery.solution raw

end Conic
