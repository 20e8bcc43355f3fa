import Conic.Backend
import Conic.InteriorPoint.Method
import Conic.SparseMatrix.Rows
import Conic.Stacked.Settings

/-!
# The bundled backend

A cone program is checked, stacked and given to a solver of stacked programs; the multipliers that
come back are sorted into the duals of the two kinds of rows. Stacked programs keep exponential
cones in argument order, so row `r` of the stack is row `rowOrder[r]` of the equalities and cone
rows together. The solver is a parameter, `bundled` fixes it.

Programs may be made by hand, with cones of any size, and the rows of the cones are counted by a
word. Where the count has wrapped around, the check can pass and the exponential cones can still
begin at a row that is not there; `stacked?` then has no result.
-/

namespace Conic

open scoped Counting

/-- Scalars that can be told to be finite. -/
class FiniteTest (α : Type) where
  isFinite : α → Bool

instance : FiniteTest Float := ⟨Float.isFinite⟩

variable {α : Type}

namespace ConeProgram

/-- The sizes of a program. -/
def sizes (p : ConeProgram α) : ProgramSizes where
  c := p.c.length
  aRows := p.a.nrows
  aCols := p.a.ncols
  b := p.b.length
  gRows := p.g.nrows
  gCols := p.g.ncols
  h := p.h.length
  coneRows := p.dims.total

/-- Every number that a solver gets to see. -/
def scalars (p : ConeProgram α) : List α := p.c ++ p.b ++ p.h ++ p.a.values ++ p.g.values

/-- The sizes fit and every number is finite. Cone rows are compared as words. -/
def check [FiniteTest α] (p : ConeProgram α) : Except Error Unit :=
  let s := p.sizes
  if s.aCols = s.c ∧ s.gCols = s.c ∧ s.b = s.aRows ∧ s.h = s.gRows ∧ word s.gRows = s.coneRows then
    if p.scalars.all FiniteTest.isFinite then .ok ()
    else .error (.solver .notFinite)
  else .error (.solver (.inconsistentSizes s))

end ConeProgram

/-! ## The order of the rows -/

/-- The order of `rows` rows in the stack: the last ones, three for each exponential cone, are put
from row order into argument order, all other rows stay. -/
def stackedRowOrder (rows exponential : Nat) : List Nat :=
  let start := rows - 3 * exponential
  List.range start ++
    (List.range exponential).flatMap fun j => ExpOrder.standard.rows.map (start + 3 * j + ·)

/-- Write the argument order of `count` exponential cones, the first of which begins at row `base`,
into a row order that has all these rows. Rows are numbered by words. -/
def writeTriples? : Nat → Nat → List Nat → Option (List Nat)
  | 0, _, order => some order
  | count + 1, base, order => do
    let writes := ExpOrder.standard.rows.zipIdx.map fun w => (word (base + w.2), word (base + w.1))
    writeTriples? count (word (base + 3)) (← DenseVector.writeAll? order writes)

/-- The row order for an equality block and cones, computed with words; none when a row is written
that is not there. -/
def stackedRowOrder? (equalities : Nat) (dims : ConeDims) : Option (List Nat) :=
  let start := word (equalities + dims.linear + dims.secondOrder.sum)
  writeTriples? dims.exponential start (List.range (word (equalities + dims.total)))

/-! ## The cones -/

/-- What the stack has for a second-order cone: nothing without rows, and a nonnegative row for a
single one. -/
def stackedSecondOrder : Nat → List Cone
  | 0 => []
  | 1 => [.nonneg 1]
  | rows => [.secondOrder rows]

/-- The cones of the stack. Empty ones are left out. -/
def stackedCones (equalities : Nat) (dims : ConeDims) : List Cone :=
  (if equalities > 0 then [.zero equalities] else []) ++
  (if dims.linear > 0 then [.nonneg dims.linear] else []) ++
  dims.secondOrder.flatMap stackedSecondOrder ++
  List.replicate dims.exponential .exponential

/-! ## The stack -/

namespace ConeProgram

/-- The order of the rows of a program in the stack. For a checked program in memory it is what
`stackedRowOrder?` computes, whenever that has a result. -/
def rowOrder (p : ConeProgram α) : List Nat :=
  stackedRowOrder (p.a.nrows + p.g.nrows) p.dims.exponential

variable [Zero α]

/-- A program as one matrix, one right-hand side and a list of cones. -/
def stacked [Add α] (p : ConeProgram α) : StackedProgram α where
  quadratic := .zeros p.numVars p.numVars
  objective := p.c
  matrix := (SparseMatrix.stack [p.a, p.g] p.numVars).selectRows p.rowOrder
  rhs := p.rowOrder.map (p.b ++ p.h).entry
  cones := stackedCones p.a.nrows p.dims

/-- `stacked`, computed with words, provided that every row that is written, picked or read is
there. -/
def stacked? [Add α] (p : ConeProgram α) : Option (StackedProgram α) := do
  let order ← stackedRowOrder? p.a.nrows p.dims
  let matrix ← (SparseMatrix.vstack [p.a, p.g] p.numVars).selectRows? order
  let rhs ← order.mapM ((p.b ++ p.h)[·]?)
  return {
    quadratic := .zeros p.numVars p.numVars
    objective := p.c
    matrix
    rhs
    cones := stackedCones p.a.nrows p.dims }

/-- The duals of the equality rows and of the cone rows, from the multipliers of the stack. -/
def unstackDuals (p : ConeProgram α) (z : DenseVector α) :
    Except Error (DenseVector α × DenseVector α) :=
  match (DenseVector.zeros p.rowOrder.length : DenseVector α).writeAll? (p.rowOrder.zip z) with
  | some rows => .ok (rows.splitAt p.a.nrows)
  | none => .error .rowOutOfRange

end ConeProgram

/-! ## Solving -/

/-- The exit code for the verdict of the bundled solver. -/
def Verdict.exitCode : Verdict → Int
  | solved => ExitCode.optimal
  | primalInfeasible => ExitCode.primalInfeasible
  | dualInfeasible => ExitCode.dualInfeasible
  | almostSolved => ExitCode.optimal + ExitCode.inaccurate
  | almostPrimalInfeasible => ExitCode.primalInfeasible + ExitCode.inaccurate
  | almostDualInfeasible => ExitCode.dualInfeasible + ExitCode.inaccurate
  | iterationLimit => ExitCode.iterationLimit
  | timeLimit => ExitCode.iterationLimit
  | numericalError => ExitCode.numericalTrouble
  | insufficientProgress => ExitCode.numericalTrouble
  | unsolved => ExitCode.fatal

/-- The raw result for an outcome, provided its vectors fit the program. -/
def SolverOutcome.rawResult [Zero α] (o : SolverOutcome α) (p : ConeProgram α) :
    Except Error (RawResult α) := do
  let rows := p.rowOrder.length
  if o.z.length = rows ∧ o.x.length = p.numVars then
    let (y, z) ← p.unstackDuals o.z
    return {
      x := o.x
      y
      z
      exitCode := o.verdict.exitCode
      primalCost := o.primalObjective
      dualCost := o.dualObjective
      iterations := o.iterations
      setupTime := o.setupTime
      solveTime := o.solveTime }
  else throw (.solver (.resultSizes o.x.length o.z.length rows p.numVars))

/-- Solve a cone program by a solver of stacked programs. -/
def ConeSolver.solve [Zero α] [Add α] [FiniteTest α] (solver : ConeSolver α)
    (program : ConeProgram α) (options : SolverOptions) : Except Error (RawResult α) := do
  program.check
  let settings ← ({} : SolverSettings).withOptions options
  match program.stacked? with
  | none => throw .rowOutOfRange
  | some stack =>
    match solver settings stack with
    | some outcome => outcome.rawResult program
    | none => throw (.solver .brokeDown)

/-- A solver of stacked programs as a backend. A warm start makes no difference and nothing is
printed. -/
def ConeSolver.backend [Zero α] [Add α] [FiniteTest α] (solver : ConeSolver α) : Backend Id α :=
  fun program request => pure (ConeSolver.solve solver program request.options)

/-- The interior-point method as a backend. The method stands for the numeric library that is linked
in; it is what runs by default, and nothing is proved of it. -/
def bundled : Backend Id Float := ConeSolver.backend InteriorPoint.solver

/-- Solve a problem by the bundled backend. -/
def Problem.solve (p : Problem Float) (request : SolveRequest) : Except Error (Solution Float) :=
  p.solveWith bundled request

end Conic
