import Conic.ConeProgram.Basic
import Conic.ConeProgram.ExpOrder
import Conic.Solution

/-!
# Recovering a solution

The segments of a program cut the dual vectors of a raw result into one piece for each constraint,
in the order in which the rows were stacked. Pieces of exponential cones are put back into the order
of the arguments. Under one identifier the last piece counts.
-/

namespace Conic

open scoped Counting

variable {α : Type} [Zero α]

namespace Segment

/-- The pieces of a dual vector that is as long as the segments together. -/
def cut (order : ExpOrder) : List Segment → DenseVector α →
    Except Error (List (ConstrId × DenseVector α))
  | [], _ => .ok []
  | s :: rest, v => do
    let piece := v.take s.size
    let values ← if s.kind = .exponential then order.toArgs piece else .ok piece
    return (s.id, values) :: (← cut order rest (v.drop s.size))

/-- The dual values by constraint. The vector must be as long as the segments together. -/
def duals (segments : List Segment) (order : ExpOrder) (what : ResultVector)
    (result : DenseVector α) : Except Error (SortedMap ConstrId (DenseVector α)) :=
  let expected := (segments.map size).sum
  if result.length = expected then SortedMap.ofList <$> cut order segments result
  else .error (.dimensionMismatch what expected result.length)

end Segment

/-- The solution that a raw result stands for. -/
def Recovery.solution [Add α] (r : Recovery α) (raw : RawResult α) : Except Error (Solution α) := do
  let status ← SolveStatus.ofExitCode raw.exitCode
  let stats : SolveStats := ⟨raw.solveTime, raw.setupTime, raw.iterations⟩
  if status.hasSolution then
    if raw.x.length = r.varSize then
      let equality ← Segment.duals r.equalities .standard .equalityDuals raw.y
      let cone ← Segment.duals r.cones .standard .coneDuals raw.z
      return {
        status
        optimalValue := some (raw.primalCost + r.offset)
        values := some (.singleton r.varId raw.x)
        duals := some (equality.mergeWith (fun _ later => later) cone)
        stats }
    else throw (.dimensionMismatch .primal r.varSize raw.x.length)
  else return .failure status stats

end Conic
