import Conic.Error
import Conic.Stacked.Basic

/-!
# Settings from options

The bundled solver knows eight options. One counts iterations, the others are numbers. An unknown
name or a value of the wrong kind is an error, the one for the first such name in their order.
-/

namespace Conic

namespace SolverSettings

/-- The value of an option that counts. -/
def countOption (name : String) (value : OptionValue) : Except Error Nat :=
  match value.asCount? with
  | some n => .ok n
  | none => .error (.solver (.notCount name value))

/-- The value of an option that is a number. -/
def numberOption (name : String) (value : OptionValue) : Except Error Float :=
  match value.asFloat? with
  | some x => .ok x
  | none => .error (.solver (.notNumber name value))

/-- Settings with one option applied. -/
def withOption (s : SolverSettings) (name : String) (value : OptionValue) :
    Except Error SolverSettings :=
  match name with
  | "max_iters" => ({ s with maxIterations := · }) <$> countOption name value
  | "abstol" => ({ s with gapAbs := · }) <$> numberOption name value
  | "reltol" => ({ s with gapRel := · }) <$> numberOption name value
  | "feastol" => ({ s with feasibility := · }) <$> numberOption name value
  | "abstol_inacc" => ({ s with reducedGapAbs := · }) <$> numberOption name value
  | "reltol_inacc" => ({ s with reducedGapRel := · }) <$> numberOption name value
  | "feastol_inacc" => ({ s with reducedFeasibility := · }) <$> numberOption name value
  | "time_limit" => ({ s with timeLimit := · }) <$> numberOption name value
  | _ => .error (.solver (.unknownOption name))

/-- Settings with all options applied, in the order of their names. -/
def withOptions (s : SolverSettings) (options : SolverOptions) : Except Error SolverSettings :=
  options.toList.foldlM (fun s e => s.withOption e.1 e.2) s

end SolverSettings

end Conic
