import Conic.DenseVector
import Conic.Error

/-!
# The order of exponential rows

A constraint lists the arguments of an exponential cone as `(x, y, z)`, a cone program may want
another order of its three rows. An `ExpOrder` says on which of the three each argument goes. It is
meant to be a permutation of the three rows but need not be: a row that is not there is an error,
and of two arguments on one row the later one stays.
-/

namespace Conic

/-- The row, among the three of a cone, for each argument. -/
structure ExpOrder where
  x : Nat
  y : Nat
  z : Nat
  deriving DecidableEq, Repr

namespace ExpOrder

variable {α : Type}

/-- The order of cone programs: first, third and second argument. -/
def standard : ExpOrder := ⟨0, 2, 1⟩

/-- The rows in the order of the arguments. -/
def rows (o : ExpOrder) : List Nat := [o.x, o.y, o.z]

/-- Every row lies in its cone. -/
def InRange (o : ExpOrder) : Prop := o.x < 3 ∧ o.y < 3 ∧ o.z < 3

instance (o : ExpOrder) : Decidable o.InRange := inferInstanceAs (Decidable (_ ∧ _))

/-- The three rows in some order. -/
def IsPermutation (o : ExpOrder) : Prop := o.rows.Perm [0, 1, 2]

instance (o : ExpOrder) : Decidable o.IsPermutation := inferInstanceAs (Decidable (List.Perm _ _))

/-- Each value of a list of triples with the row it goes to; the first triple begins at row
`base`. -/
def placements (o : ExpOrder) (base : Nat) : DenseVector α → List (Nat × α)
  | a :: b :: c :: rest =>
    (base + o.x, a) :: (base + o.y, b) :: (base + o.z, c) :: o.placements (base + 3) rest
  | _ => []

/-- From argument order to row order, triple by triple. What is left after the last full triple
becomes zero. -/
def toRows [Zero α] (o : ExpOrder) (v : DenseVector α) : Except Error (DenseVector α) :=
  match (DenseVector.zeros v.length : DenseVector α).writeAll? (o.placements 0 v) with
  | some w => .ok w
  | none => .error .rowOutOfRange

/-- From row order to argument order, triple by triple. What is left after the last full triple
becomes zero. -/
def toArgs [Zero α] (o : ExpOrder) : DenseVector α → Except Error (DenseVector α)
  | a :: b :: c :: rest => do
    let triple := [a, b, c]
    match triple[o.x]?, triple[o.y]?, triple[o.z]? with
    | some p, some q, some r => return p :: q :: r :: (← o.toArgs rest)
    | _, _, _ => .error .rowOutOfRange
  | rest => .ok (DenseVector.zeros rest.length)

end ExpOrder

end Conic
