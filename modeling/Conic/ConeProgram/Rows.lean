import Conic.ConeProgram.Basic
import Conic.ConeProgram.ExpOrder

/-!
# The rows of a constraint

Each supported constraint becomes a block of rows over the one block of variables. A condition
`M x + o = 0` or `M x + o ≤ 0` is moved to the other side, as `M x` against `-o`. The cones get the
rows `-M` and the right-hand side `o`, so that the slack is the argument itself. The rows of a
second-order cone are its bound and its body, cone after cone; those of an exponential cone are its
three arguments in the order asked for.
-/

namespace Conic

variable {α : Type}

namespace RowBlock

/-- The rows of `matrix * x + offset` brought to the other side of a comparison with zero. -/
def comparison [Neg α] (r : RowBlock α) : RowBlock α := ⟨r.matrix, r.offset.neg⟩

/-- The rows whose slack is `matrix * x + offset`. -/
def slack [One α] [Mul α] [Neg α] (r : RowBlock α) : RowBlock α := ⟨r.matrix.neg, r.offset⟩

/-- The blocks on top of each other, `ncols` columns wide. Each row has its entry of the offset,
which lies in memory, so that the rows can be counted. -/
def stack [Add α] (blocks : List (RowBlock α)) (ncols : Nat) : RowBlock α :=
  ⟨.stack (blocks.map matrix) ncols, (blocks.map offset).flatten⟩

variable [Zero α] [Add α]

/-- A block of `nrows` zero rows. -/
def zeros (nrows ncols : Nat) : RowBlock α := ⟨.zeros nrows ncols, .zeros nrows⟩

/-- Put row `i` of an expression on row `places[i]` of the block, in addition to the coefficients
that are there and in place of the offset. -/
def place (v : Variable) (block : RowBlock α) (e : AffineExpr α) (places : List Nat) :
    Except Error (RowBlock α) := do
  let rows ← e.rowsOver v
  match block.offset.writeAll? (places.zip rows.offset) with
  | some offset =>
    return ⟨block.matrix.add (rows.matrix.scatterRows places block.matrix.nrows), offset⟩
  | none => .error .rowOutOfRange

/-- Place the rows of several expressions in one block. -/
def interleave (v : Variable) (nrows : Nat) (parts : List (AffineExpr α × List Nat)) :
    Except Error (RowBlock α) :=
  parts.foldlM (fun block part => block.place v part.1 part.2) (zeros nrows v.size)

end RowBlock

/-- The rows of the bounds of `cones` second-order cones with bodies of `body` entries. -/
def boundRows (cones body : Nat) : List Nat := (List.range cones).map (· * (body + 1))

/-- The rows of the bodies of these cones. -/
def bodyRows (cones body : Nat) : List Nat :=
  (List.range cones).flatMap fun j => (List.range body).map fun r => j * (body + 1) + 1 + r

/-- The row `offset` of each of `cones` exponential cones. -/
def tripleRows (cones offset : Nat) : List Nat := (List.range cones).map (3 * · + offset)

variable [Zero α] [One α] [Add α] [Mul α] [Neg α]

namespace Constraint

/-- The rows of a constraint over the variable block. -/
def rows (c : Constraint α) (v : Variable) (order : ExpOrder) : Except Error (RowBlock α) :=
  match c.condition with
  | .zero e => RowBlock.comparison <$> e.rowsOver v
  | .nonpos e => RowBlock.comparison <$> e.rowsOver v
  | .secondOrder t x _ _ =>
    let body := x.size / t.size
    RowBlock.slack <$> RowBlock.interleave v c.size
      [(t, boundRows t.size body), (x, bodyRows t.size body)]
  | .exponential x y z _ _ =>
    RowBlock.slack <$> RowBlock.interleave v c.size
      [(x, tripleRows x.size order.x), (y, tripleRows x.size order.y),
        (z, tripleRows x.size order.z)]
  | _ => .error (.unsupportedConstraint c.kind c.id)

/-- The rows of a list of constraints, one block below the other. -/
def stackedRows (cs : List (Constraint α)) (v : Variable) (order : ExpOrder) :
    Except Error (RowBlock α) := do
  let blocks ← cs.mapM (·.rows v order)
  return RowBlock.stack blocks v.size

end Constraint

end Conic
