import Conic.Decimal.Shortest
import Conic.SortedMap
import Conic.Text.Quoted

/-!
# Solver options

Named values that travel untouched to the solver, which alone decides what they mean. Each name has
one value, the last one set, and the names are kept in the order of their characters, which is also
the order of their bytes.
-/

namespace Conic

/-- The value of an option. -/
inductive OptionValue where
  | bool (b : Bool)
  | int (n : Int)
  | float (x : Float)
  | str (s : String)

namespace OptionValue

/-- The value as a number; whole numbers count. -/
def asFloat? : OptionValue → Option Float
  | float x => some x
  | int n => some (Float.ofInt n)
  | _ => none

/-- The value as a count: a whole number from zero to `2 ^ 32 - 1`. -/
def asCount? : OptionValue → Option Nat
  | int n => if 0 ≤ n ∧ n.toNat < UInt32.size then some n.toNat else none
  | _ => none

/-- The value as a truth value. -/
def asBool? : OptionValue → Option Bool
  | bool b => some b
  | _ => none

/-- Values of one kind are compared as such, floats as numbers; values of two kinds differ. -/
protected def beq : OptionValue → OptionValue → Bool
  | bool a, bool b => a == b
  | int a, int b => a == b
  | float a, float b => a == b
  | str a, str b => a == b
  | _, _ => false

instance : BEq OptionValue := ⟨OptionValue.beq⟩

/-- The value as it is written in messages. -/
def text : OptionValue → String
  | bool b => if b then "true" else "false"
  | int n => toString n
  | float x => Decimal.text x
  | str s => Text.quoted s

end OptionValue

/-- Option values by name. -/
structure SolverOptions where
  values : SortedMap String OptionValue

namespace SolverOptions

/-- No options. -/
def empty : SolverOptions := ⟨.empty⟩

/-- Give an option a value, in place of any it had. -/
def set (o : SolverOptions) (name : String) (value : OptionValue) : SolverOptions :=
  ⟨o.values.insert name value⟩

/-- Set options one after the other. -/
def ofList (l : List (String × OptionValue)) : SolverOptions :=
  l.foldl (fun o e => o.set e.1 e.2) empty

/-- The value of an option, if it was set. -/
def get? (o : SolverOptions) (name : String) : Option OptionValue := o.values.find? name

/-- The options in the order of their names. -/
def toList (o : SolverOptions) : List (String × OptionValue) := o.values.entries

/-- The number of options set. -/
def size (o : SolverOptions) : Nat := o.values.size

/-- Whether no option is set. -/
def isEmpty (o : SolverOptions) : Bool := o.values.isEmpty

/-- Two sets of options are alike when they have the same names with equal values. -/
instance : BEq SolverOptions := ⟨fun o p => o.toList == p.toList⟩

end SolverOptions

end Conic
