import Conic.ConeKind
import Conic.Identifier
import Conic.SolverOptions

/-!
# Errors

Why a problem cannot be written down, turned into a cone program or solved, or a solver's result not
read back. An error holds its cause; `Error.message` is the wording. That a program has no feasible
point or no bound is not an error but a status.
-/

namespace Conic

/-- Sizes that do not go together. -/
inductive ShapeFault where
  /-- A coefficient matrix of the wrong width. -/
  | coefficientColumns (expected got : Nat)
  /-- An offset that is not as long as its matrix is high. -/
  | offsetLength (expected got : Nat)
  /-- Two expressions of different sizes, neither of them one. -/
  | sizes (left right : Nat)
  /-- An entry that an expression does not have. -/
  | index (size got : Nat)
  /-- A cone bound that should be a single entry. -/
  | boundNotScalar (size : Nat)
  /-- Cone bodies that cannot be cut into one for each bound. -/
  | bodySize (bounds got : Nat)
  /-- Three arguments of different sizes. -/
  | argumentSizes (x y z : Nat)
  /-- An expression that does not fill a square matrix. -/
  | entries (expected got : Nat)
  deriving DecidableEq, Repr

/-- Objectives that a cone program cannot have. -/
inductive ObjectiveFault where
  | noVariables
  | severalVariables (count : Nat)
  | notScalar (size : Nat)
  | maximization
  deriving DecidableEq, Repr

/-- Problems that make no sense. -/
inductive ProblemFault where
  /-- An expression in another variable than the one of the problem. -/
  | foreignVariable (found block : VarId)
  /-- An exponent of a power cone outside the open unit interval. -/
  | powerExponent (alpha : Float)

/-- The sizes of a cone program, as the solver reports them when they do not fit. -/
structure ProgramSizes where
  c : Nat
  aRows : Nat
  aCols : Nat
  b : Nat
  gRows : Nat
  gCols : Nat
  h : Nat
  coneRows : Nat
  deriving DecidableEq, Repr

/-- Why a solver refused to run, or broke down. -/
inductive SolverFault where
  | inconsistentSizes (sizes : ProgramSizes)
  | notFinite
  | unknownOption (name : String)
  | notCount (name : String) (value : OptionValue)
  | notNumber (name : String) (value : OptionValue)
  | resultSizes (primal dual rows cols : Nat)
  /-- The solver gave up without an outcome. -/
  | brokeDown
  /-- A fault in the solver's own words. -/
  | other (text : String)

/-- The vectors of a result that have to fit the problem. -/
inductive ResultVector where
  | primal
  | equalityDuals
  | coneDuals
  deriving DecidableEq, Repr

/-- What can go wrong between a problem and its solution. -/
inductive Error where
  | unsupportedConstraint (kind : ConeKind) (id : ConstrId)
  | malformedObjective (fault : ObjectiveFault)
  | unknownExitCode (code : Int)
  | solver (fault : SolverFault)
  | shapeMismatch (fault : ShapeFault)
  | invalidProblem (fault : ProblemFault)
  | dimensionMismatch (vector : ResultVector) (expected got : Nat)
  /-- A row outside the vector it was meant for. -/
  | rowOutOfRange

/-! ## Wording -/

/-- What was expected and what was there. -/
def ShapeFault.expectedGot : ShapeFault → String × String
  | coefficientColumns expected got => (s!"{expected} coefficient columns", toString got)
  | offsetLength expected got => (s!"offset of length {expected}", toString got)
  | sizes left right => (s!"size {left}", s!"size {right}")
  | index size got => (s!"index below {size}", toString got)
  | boundNotScalar size => ("scalar t", s!"t of size {size}")
  | bodySize bounds got => (s!"x size a multiple of t size {bounds}", toString got)
  | argumentSizes x y z => (s!"three arguments of size {x}", s!"sizes ({x}, {y}, {z})")
  | entries expected got => (s!"{expected} entries", toString got)

/-- What is wrong with the objective. -/
def ObjectiveFault.message : ObjectiveFault → String
  | noVariables => "problem has no variables"
  | severalVariables count => s!"expected a single variable block, found {count}"
  | notScalar size => s!"objective must be scalar, got {size} entries"
  | maximization => "expected a minimization"

/-- What is wrong with the problem. -/
def ProblemFault.message : ProblemFault → String
  | foreignVariable found block =>
    s!"expression references {found.text} outside the variable block {block.text}"
  | powerExponent alpha => s!"power cone alpha must lie in (0, 1), got {Decimal.text alpha}"

/-- The complaint of the solver. Names and texts are quoted as they are. -/
def SolverFault.message : SolverFault → String
  | inconsistentSizes s =>
    s!"inconsistent problem data: c {s.c}, A {s.aRows}x{s.aCols}, b {s.b}, " ++
      s!"G {s.gRows}x{s.gCols}, h {s.h}, cone rows {s.coneRows}"
  | notFinite => "problem data contains NaN or infinite entries"
  | unknownOption name => "unrecognized option '" ++ name ++ "'"
  | notCount name value =>
    "option '" ++ name ++ "' expects a non-negative integer, got " ++ value.text
  | notNumber name value => "option '" ++ name ++ "' expects a number, got " ++ value.text
  | resultSizes primal dual rows cols =>
    s!"clarabel returned {primal} primal and {dual} dual entries for a {rows} x {cols} problem"
  | brokeDown => "solver broke down"
  | other text => text

/-- The written name of a result vector. -/
def ResultVector.text : ResultVector → String
  | primal => "primal solution"
  | equalityDuals => "equality duals"
  | coneDuals => "cone duals"

/-- The text of an error. -/
def Error.message : Error → String
  | unsupportedConstraint kind id => s!"Unsupported constraint: {kind.text} constraint {id.text}"
  | malformedObjective fault => s!"Malformed objective: {fault.message}"
  | unknownExitCode code => s!"Unknown solver exit code: {code}"
  | solver fault => s!"Solver internal error: {fault.message}"
  | shapeMismatch fault =>
    let (expected, got) := fault.expectedGot
    s!"Shape mismatch: expected {expected}, got {got}"
  | invalidProblem fault => s!"Invalid problem: {fault.message}"
  | dimensionMismatch vector expected got =>
    s!"Dimension mismatch in {vector.text}: expected {expected}, got {got}"
  | rowOutOfRange => "Row out of range"

end Conic
