import Conic.InteriorPoint.Linear

/-!
# Factorization

A symmetric matrix whose leading blocks are regular is the product of a unit lower triangle, a
diagonal and the upper triangle. Each round of the factorization takes off the first row and column,
so the recursion is on the list of the rows that are left.

This is a part of the method that `bundled` runs in place of the numeric library
(`InteriorPoint.solver`); no result depends on it.
-/

namespace Conic.InteriorPoint

/-- A row of a symmetric matrix from the diagonal on. -/
structure UpperRow where
  diagonal : Wide
  rest : DenseVector Wide

/-- One round of the factorization: the pivot, and the rest of its row over the pivot. -/
structure Pivot where
  value : Wide
  ratios : DenseVector Wide

namespace UpperRow

/-- Subtract the product of the column `ratios` with the row `entries` from the rows that are
left. -/
def reduce : DenseVector Wide → DenseVector Wide → List UpperRow → List UpperRow
  | ratio :: ratios, entry :: entries, r :: rows =>
    let reduced :=
      if ratio.isZero then r
      else ⟨r.diagonal - ratio * entry, addScaled r.rest (-ratio) entries⟩
    reduced :: reduce ratios entries rows
  | _, _, rows => rows

@[simp]
theorem length_reduce (ratios entries : DenseVector Wide) (rows : List UpperRow) :
    (reduce ratios entries rows).length = rows.length := by
  induction rows generalizing ratios entries with
  | nil => cases ratios <;> cases entries <;> rfl
  | cons r rows ih => cases ratios <;> cases entries <;> simp [reduce, ih]

/-- The factorization of the matrix with these rows. -/
def factor : List UpperRow → List Pivot
  | [] => []
  | r :: rows =>
    let ratios := r.rest.map (· / r.diagonal)
    ⟨r.diagonal, ratios⟩ :: factor (reduce ratios r.rest rows)
termination_by rows => rows.length
decreasing_by simp

end UpperRow

/-- The solution of a system with a factored matrix: forward through the lower triangle, over the
diagonal, and back through the upper one. -/
def solveFactored : List Pivot → DenseVector Wide → DenseVector Wide
  | p :: rest, b :: bs =>
    let tail := solveFactored rest (addScaled bs (-b) p.ratios)
    (b / p.value - dot p.ratios tail) :: tail
  | _, _ => []

end Conic.InteriorPoint
