/-!
# Machine numbers

Sizes and indices of the program are machine words. A sum or a product that does not fit wraps
around: the program goes on with the remainder, in a build that does not check for overflow. One
reduction of the exact number gives the same word as a reduction at each step, so that definitions
count exactly and wrap once.

Not every count can wrap. Vectors lie in memory, in less than half of the addresses there are, so
that their lengths and the sums of a few of them fit a word. What can wrap are sizes that are only
promised, such as those of cones, the rows of matrices without entries, and the side of a square
matrix.
-/

namespace Conic

/-- The number of machine words, `2 ^ 64`. -/
def wordSize : Nat := 0x1_0000_0000_0000_0000

/-- The word that a number wraps to. -/
def word (n : Nat) : Nat := n % wordSize

/-- No vector has as many entries, `2 ^ 60`: they take eight bytes each, and at most `2 ^ 63 - 1`
bytes are allocated at once. -/
def vectorLimit : Nat := 0x1000_0000_0000_0000

theorem word_lt (n : Nat) : word n < wordSize := Nat.mod_lt n (by decide)

theorem word_of_lt {n : Nat} (h : n < wordSize) : word n = n := Nat.mod_eq_of_lt h

/-- Wrapping an operand first makes no difference to a sum. -/
theorem word_add_word (m n : Nat) : word (m + word n) = word (m + n) := by
  rw [word, word, word, Nat.add_mod_mod]

/-! ## Sums -/

/-- Zero as the core library has it. Sums of sizes begin with it, so that they are the same terms
whatever else is imported where they are read. -/
scoped instance Counting.natZero : Zero Nat := ⟨0⟩

end Conic
