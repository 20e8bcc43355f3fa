import Conic.DenseVector
import Conic.InteriorPoint.Wide

/-!
# Linear algebra

Operations on vectors and matrices of wide numbers. A matrix is the list of its rows, or of its
columns where that is said.

This is a part of the method that `bundled` runs in place of the numeric library
(`InteriorPoint.solver`); no result depends on it.
-/

namespace Conic.InteriorPoint

/-! ## Vectors -/

/-- The inner product. -/
def dot (v w : DenseVector Wide) : Wide := DenseVector.sum (List.zipWith (· * ·) v w)

/-- `v + a * w`. -/
def addScaled (v : DenseVector Wide) (a : Wide) (w : DenseVector Wide) : DenseVector Wide :=
  List.zipWith (fun p q => p + a * q) v w

/-- `v - w`. -/
def subtract (v w : DenseVector Wide) : DenseVector Wide := List.zipWith (· - ·) v w

/-- The entrywise product. -/
def mulEntries (v w : DenseVector Wide) : DenseVector Wide := List.zipWith (· * ·) v w

/-- The entrywise quotient. -/
def divEntries (v w : DenseVector Wide) : DenseVector Wide := List.zipWith (· / ·) v w

/-- The length of a vector. -/
def length (v : DenseVector Wide) : Wide := (dot v v).sqrt

/-- The largest magnitude of an entry. -/
def maxNorm (v : DenseVector Wide) : Wide := v.foldl (fun m p => m.max p.abs) 0

/-- The numbers as wide ones. -/
def widen (v : DenseVector Float) : DenseVector Wide := v.map Wide.ofFloat

/-- The numbers as floats. -/
def narrow (v : DenseVector Wide) : DenseVector Float := v.map Wide.toFloat

/-! ## Matrices -/

/-- The product of a matrix, by its rows, with a vector. -/
def mulVec (rows : List (DenseVector Wide)) (v : DenseVector Wide) : DenseVector Wide :=
  rows.map (dot · v)

/-- The columns of a matrix of `n` columns, from its rows. -/
def transpose (n : Nat) (rows : List (DenseVector Wide)) : List (DenseVector Wide) :=
  rows.foldr (List.zipWith (· :: ·)) (List.replicate n [])

end Conic.InteriorPoint
