/-!
# Dense vectors

Vectors as lists of scalars. The scalars are left open: the program runs over floating-point
numbers, and its laws are stated over exact ones. Sums therefore have a fixed order, left to right.
-/

namespace Conic

/-- A vector, entry by entry. -/
abbrev DenseVector (α : Type) := List α

namespace DenseVector

variable {α : Type}

/-- The vector of `n` zeros. -/
def zeros [Zero α] (n : Nat) : DenseVector α := List.replicate n 0

/-- Entrywise sum of two vectors of one length. -/
def add [Add α] (v w : DenseVector α) : DenseVector α := List.zipWith (· + ·) v w

/-- Each entry times `c`. -/
def scale [Mul α] (v : DenseVector α) (c : α) : DenseVector α := v.map (· * c)

/-- Each entry plus `c`. -/
def shift [Add α] (v : DenseVector α) (c : α) : DenseVector α := v.map (· + c)

/-- Each entry negated. -/
def neg [Neg α] (v : DenseVector α) : DenseVector α := v.map (- ·)

/-- The entries added up from the left, beginning at zero. -/
def sum [Zero α] [Add α] (v : DenseVector α) : α := v.foldl (· + ·) 0

/-- The entry at `i`, zero past the end. -/
def entry [Zero α] (v : DenseVector α) (i : Nat) : α := v.getD i 0

/-- Replace the entry at `i`; there must be one. -/
def replace? (v : DenseVector α) (i : Nat) (a : α) : Option (DenseVector α) :=
  if i < v.length then some (v.set i a) else none

/-- Write each value at its place, one after the other; every place must be inside the vector. -/
def writeAll? (v : DenseVector α) (writes : List (Nat × α)) : Option (DenseVector α) :=
  writes.foldlM (fun v w => v.replace? w.1 w.2) v

end DenseVector

end Conic
