/-!
# Sets of code points

A property of characters is tabled by the code points at which it begins and ceases to hold,
ascending and in turn. A character has the property when an odd number of them lie at or below it.
-/

namespace Conic.Text

/-- Whether a code point lies in the set with these borders. -/
def withinBorders (borders : List Nat) (code : Nat) : Bool :=
  borders.countP (· ≤ code) % 2 = 1

/-- A set given by two borders is the interval between them. -/
theorem withinBorders_pair (first last code : Nat) (h : first ≤ last) :
    withinBorders [first, last] code = true ↔ first ≤ code ∧ code < last := by
  simp only [withinBorders, List.countP_cons, List.countP_nil, decide_eq_true_eq]
  split <;> split <;> simp <;> omega

end Conic.Text
