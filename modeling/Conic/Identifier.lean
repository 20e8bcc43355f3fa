/-!
# Identifiers

Decision variables and constraints are told apart by identifiers, never by name or place. Both kinds
of identifier draw their numbers from one supply, so no number is ever in use twice.
-/

namespace Conic

/-- Names a block of decision variables. -/
structure VarId where
  index : Nat
  deriving DecidableEq, Repr

/-- Names a constraint; dual values are reported under it. -/
structure ConstrId where
  index : Nat
  deriving DecidableEq, Repr

namespace VarId

instance : Ord VarId := ⟨compareOn index⟩

instance : Std.TransOrd VarId := inferInstanceAs (Std.TransCmp (compareOn index))

instance : Std.LawfulEqOrd VarId where
  eq_of_compare {a b} h := by
    have : a.index = b.index := Nat.compare_eq_eq.1 h
    cases a; cases b; simp_all

/-- The written form, as it appears in messages. -/
def text (v : VarId) : String := s!"var{v.index}"

end VarId

namespace ConstrId

instance : Ord ConstrId := ⟨compareOn index⟩

instance : Std.TransOrd ConstrId := inferInstanceAs (Std.TransCmp (compareOn index))

instance : Std.LawfulEqOrd ConstrId where
  eq_of_compare {a b} h := by
    have : a.index = b.index := Nat.compare_eq_eq.1 h
    cases a; cases b; simp_all

/-- The written form, as it appears in messages. -/
def text (c : ConstrId) : String := s!"constr{c.index}"

end ConstrId

/-- A flat block of `size` decision variables. Copies of a block keep its identifier. -/
structure Variable where
  id : VarId
  size : Nat
  name : Option String
  deriving DecidableEq, Repr

/-- The numbers not handed out yet: `next` and all above it. -/
structure IdSupply where
  next : Nat
  deriving DecidableEq, Repr

/-- A supply nothing was drawn from. -/
def IdSupply.full : IdSupply := ⟨0⟩

end Conic
