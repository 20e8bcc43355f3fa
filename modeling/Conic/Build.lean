import Conic.Error

/-!
# Building steps

Making a variable or a constraint draws an identifier from a supply, and making a constraint can
also fail. A step returns the supply it leaves behind in both cases, so that what a failure costs
can be read off: `draw` is the only step that takes a number, and it is always the last one of a
constructor.
-/

namespace Conic

/-- A step that may draw identifiers and may fail. -/
abbrev Build := EStateM Error IdSupply

namespace Build

/-- Take the next number. -/
def draw : Build Nat := fun s => .ok s.next ⟨s.next + 1⟩

/-- A fresh identifier for a variable. -/
def varId : Build VarId := VarId.mk <$> draw

/-- A fresh identifier for a constraint. -/
def constrId : Build ConstrId := ConstrId.mk <$> draw

/-- A result computed without the supply. -/
def lift {α : Type} : Except Error α → Build α
  | .ok a => pure a
  | .error e => throw e

end Build

/-- A fresh block of `size` variables. -/
def Variable.fresh (size : Nat) (name : Option String) : Build Variable := do
  return { id := ← Build.varId, size, name }

end Conic
