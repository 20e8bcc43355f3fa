import Conic.Proofs.ConeProgram.Splitting
import Conic.Proofs.Expressions.Operations
import Conic.Proofs.Identifiers

/-!
# Cones of a constraint

A constraint is counted in three ways: by its cones, by the entries of each cone and by the entries
of its arguments. The counts agree for whatever a constructor returns (`Call.counted_step`), and the
number of entries of a body, for which the counts and the rows of a constraint divide, is always a
whole one.
-/

namespace Conic

variable {α : Type}

/-! ## Checked divisions -/

/-- The quotient of numbers of which the second is not zero and divides the first. -/
def exactQuotient? (m n : Nat) : Option Nat := if n ≠ 0 ∧ m % n = 0 then some (m / n) else none

theorem exactQuotient?_eq_some {m n : Nat} (hpos : 0 < n) (hdvd : n ∣ m) :
    exactQuotient? m n = some (m / n) :=
  if_pos ⟨Nat.ne_of_gt hpos, Nat.mod_eq_zero_of_dvd hdvd⟩

/-- `coneSizes` with its division checked. -/
def Condition.coneSizes? : Condition α → Option (List Nat)
  | secondOrder t x _ _ =>
    (exactQuotient? x.size t.size).map fun body => List.replicate t.size (body + 1)
  | c => some c.coneSizes

/-- `rows` with its division checked. -/
def Constraint.rows? [Zero α] [One α] [Add α] [Mul α] [Neg α] (c : Constraint α) (v : Variable)
    (order : ExpOrder) : Option (Except Error (RowBlock α)) :=
  match c.condition with
  | .secondOrder t x _ _ =>
    (exactQuotient? x.size t.size).map fun body =>
      RowBlock.slack <$> RowBlock.interleave v c.size
        [(t, boundRows t.size body), (x, bodyRows t.size body)]
  | _ => some (c.rows v order)

theorem Condition.coneSizes?_eq_some (c : Condition α) : c.coneSizes? = some c.coneSizes := by
  cases c with
  | secondOrder t x pos dvd =>
    rw [coneSizes?, exactQuotient?_eq_some pos dvd]
    rfl
  | _ => rfl

theorem Constraint.rows?_eq_some [Zero α] [One α] [Add α] [Mul α] [Neg α] (c : Constraint α)
    (v : Variable) (order : ExpOrder) : c.rows? v order = some (c.rows v order) := by
  obtain ⟨id, condition⟩ := c
  cases condition with
  | secondOrder t x pos dvd =>
    show (exactQuotient? x.size t.size).map _ = _
    rw [exactQuotient?_eq_some pos dvd]
    rfl
  | _ => rfl

/-! ## What constructors return -/

/-- Whatever constraint a step makes has arguments of these sizes. -/
def HasSizes (step : Build (Constraint α)) (sizes : List Nat) : Prop :=
  ∀ s c s', step s = .ok c s' → c.condition.args.map AffineExpr.size = sizes

namespace HasSizes

variable {sizes : List Nat}

theorem ofCondition {c : Condition α} (h : c.args.map AffineExpr.size = sizes) :
    HasSizes (Constraint.ofCondition c) sizes := by
  rintro s _ _ ⟨⟩
  exact h

theorem check {P : Prop} [Decidable P] {f : P → Build (Constraint α)}
    (h : ∀ hP, HasSizes (f hP) sizes) (e : Error) :
    HasSizes (if hP : P then f hP else throw e) sizes := by
  split
  case isTrue hP => exact h hP
  case isFalse => exact nofun

theorem lift {x : Except Error (AffineExpr α)} {f : AffineExpr α → Build (Constraint α)}
    (h : ∀ a, x = .ok a → HasSizes (f a) sizes) : HasSizes (Build.lift x >>= f) sizes := by
  cases x with
  | ok a => exact h a rfl
  | error e => exact nofun

/-- The constraint of a call is the one that its constructor makes. -/
theorem of_map {step : Build (Constraint α)} (h : HasSizes step sizes) {s s' : IdSupply}
    {c : Constraint α} (hc : (Made.constraint <$> step) s = .ok (.constraint c) s') :
    c.condition.args.map AffineExpr.size = sizes := by
  have hc : EStateM.map Made.constraint step s = .ok (.constraint c) s' := hc
  rw [EStateM.map] at hc
  cases hstep : step s with
  | ok c' s'' =>
    rw [hstep] at hc
    cases hc
    exact h s c s' hstep
  | error e s'' =>
    rw [hstep] at hc
    cases hc

theorem socColumns (t x : AffineExpr α) :
    HasSizes (Constraint.socColumns t x) [t.size, x.size] := by
  refine check (fun _ => ?_) _
  exact ofCondition rfl

theorem soc (t x : AffineExpr α) : HasSizes (Constraint.soc t x) [t.size, x.size] :=
  check (fun _ => socColumns t x) _

theorem expCone (x y z : AffineExpr α) :
    HasSizes (Constraint.expCone x y z) [x.size, y.size, z.size] := by
  refine check (fun _ => ?_) _
  exact ofCondition rfl

theorem psd (e : AffineExpr α) (dim : Nat) : HasSizes (Constraint.psd e dim) [e.size] := by
  refine check (fun _ => ?_) _
  exact ofCondition rfl

theorem powCone (x y z : AffineExpr α) (alpha : Float) :
    HasSizes (Constraint.powCone x y z alpha) [x.size, y.size, z.size] := by
  refine check (fun _ => check (fun _ => ?_) _) _
  exact ofCondition rfl

/-- The constraint of a comparison is about a difference. -/
theorem comparison [Zero α] [One α] [Add α] [Mul α] [Neg α] {a b : AffineExpr α}
    {f : AffineExpr α → Build (Constraint α)} (h : ∀ e, HasSizes (f e) [e.size]) :
    HasSizes (Build.lift (a.sub b) >>= f) [if a.size = 1 then b.size else a.size] := by
  refine lift fun e he => ?_
  rw [← (AffineExpr.shapeChecked_sub a b).size_eq he]
  exact h e

end HasSizes

namespace Call

/-- The sizes of the arguments that the constraint of a call has; a comparison has the difference of
its sides. -/
def argumentSizes : Call α → List Nat
  | block _ _ => []
  | varId => []
  | constrId => []
  | zero e => [e.size]
  | nonpos e => [e.size]
  | nonneg e => [e.size]
  | eq l r => [if l.size = 1 then r.size else l.size]
  | leq l r => [if l.size = 1 then r.size else l.size]
  | geq l r => [if r.size = 1 then l.size else r.size]
  | soc t x => [t.size, x.size]
  | socColumns t x => [t.size, x.size]
  | expCone x y z => [x.size, y.size, z.size]
  | psd e _ => [e.size]
  | powCone x y z _ => [x.size, y.size, z.size]

variable [Zero α] [One α] [Add α] [Mul α] [Neg α]

theorem sizes_args_of_step {call : Call α} {s s' : IdSupply} {c : Constraint α}
    (h : call.step s = .ok (.constraint c) s') :
    c.condition.args.map AffineExpr.size = call.argumentSizes := by
  cases call with
  | block size name => cases h
  | varId => cases h
  | constrId => cases h
  | zero e => exact HasSizes.of_map (.ofCondition rfl) h
  | nonpos e => exact HasSizes.of_map (.ofCondition rfl) h
  | nonneg e => exact HasSizes.of_map (.ofCondition rfl) h
  | eq l r => exact HasSizes.of_map (.comparison fun _ => .ofCondition rfl) h
  | leq l r => exact HasSizes.of_map (.comparison fun _ => .ofCondition rfl) h
  | geq l r => exact HasSizes.of_map (.comparison fun _ => .ofCondition rfl) h
  | soc t x => exact (HasSizes.soc t x).of_map h
  | socColumns t x => exact (HasSizes.socColumns t x).of_map h
  | expCone x y z => exact (HasSizes.expCone x y z).of_map h
  | psd e dim => exact (HasSizes.psd e dim).of_map h
  | powCone x y z alpha => exact (HasSizes.powCone x y z alpha).of_map h

/-- The counts of whatever constraint a constructor returns, from arguments of any size. There are
as many cone sizes as cones, and together they are the size of the constraint, which is that of its
arguments together. Where the sizes of cones or the rows of the constraint are computed by division,
the divisor is not zero and nothing is left over. -/
theorem counted_step {call : Call α} {s s' : IdSupply} {c : Constraint α}
    (h : call.step s = .ok (.constraint c) s') :
    c.condition.coneSizes.length = c.condition.numCones ∧ c.condition.coneSizes.sum = c.size ∧
      c.condition.args.map AffineExpr.size = call.argumentSizes ∧ c.size = call.argumentSizes.sum ∧
      c.condition.coneSizes? = some c.condition.coneSizes ∧
      ∀ v order, c.rows? v order = some (c.rows v order) := by
  have hsizes := sizes_args_of_step h
  refine ⟨?_, c.condition.sum_coneSizes, hsizes, congrArg List.sum hsizes,
    c.condition.coneSizes?_eq_some, c.rows?_eq_some⟩
  rw [Condition.coneSizes_eq, List.length_replicate]

/-- Two bounds share a body of six entries. -/
theorem twoBounds_counted :
    let bounds : AffineExpr Int := .ofConstant [1, 2]
    let body : AffineExpr Int := .ofConstant [0, 0, 0, 0, 0, 0]
    ∃ c s', (socColumns bounds body).step ⟨5⟩ = .ok (.constraint c) s' ∧
      c.condition.coneSizes = [4, 4] ∧
      c.condition.numCones = 2 ∧ c.condition.coneSizes.sum = c.size ∧ c.size = 8 ∧
      c.condition.coneSizes? = some [4, 4] := by
  intro bounds body
  have hshared : 0 < bounds.size ∧ bounds.size ∣ body.size := by decide
  let c : Constraint Int := ⟨⟨5⟩, .secondOrder bounds body hshared.1 hshared.2⟩
  have hstep : (socColumns bounds body).step ⟨5⟩ = .ok (.constraint c) ⟨6⟩ := by
    rw [step, Constraint.socColumns, dif_pos hshared]
    rfl
  have hsizes : c.condition.coneSizes = [4, 4] := by
    show List.replicate bounds.size (body.size / bounds.size + 1) = [4, 4]
    decide
  obtain ⟨hlength, htotal, -, hsize, hchecked, -⟩ := counted_step hstep
  rw [hsizes] at hlength hchecked
  exact ⟨c, ⟨6⟩, hstep, hsizes, hlength.symm, htotal, hsize, hchecked⟩

end Call

end Conic
