import Conic.Problem
import Mathlib.Data.List.Nodup
import Mathlib.Data.List.Range

/-!
# Identifiers

A program that uses the library makes variables, constraints and bare identifiers in some order.
Each call takes the next number of the supply, or fails and leaves the supply as it was; which of
the two happens does not depend on the supply (`Call.drawsOne_step`). The numbers of whatever a run
of calls has made are therefore consecutive, across variables and constraints (`map_index_run`), and
the identifiers of constraints that the calls have made tell them apart
(`Problem.Issued.eq_of_id_eq`).
-/

namespace Conic

variable {α : Type}

/-! ## Calls -/

/-- The calls that make something with an identifier of its own. -/
inductive Call (α : Type) where
  | block (size : Nat) (name : Option String)
  | varId
  | constrId
  | zero (e : AffineExpr α)
  | nonpos (e : AffineExpr α)
  | nonneg (e : AffineExpr α)
  | eq (l r : AffineExpr α)
  | leq (l r : AffineExpr α)
  | geq (l r : AffineExpr α)
  | soc (t x : AffineExpr α)
  | socColumns (t x : AffineExpr α)
  | expCone (x y z : AffineExpr α)
  | psd (e : AffineExpr α) (dim : Nat)
  | powCone (x y z : AffineExpr α) (alpha : Float)

/-- What a call has made. -/
inductive Made (α : Type) where
  | block (v : Variable)
  | varId (id : VarId)
  | constrId (id : ConstrId)
  | constraint (c : Constraint α)

/-- The number of the identifier. -/
def Made.index : Made α → Nat
  | block v => v.id.index
  | varId id => id.index
  | constrId id => id.index
  | constraint c => c.id.index

/-- A building step that draws the next number for what it makes, or fails without drawing one.
Whether it fails, and how, does not depend on the supply. -/
def DrawsOne (step : Build (Made α)) : Prop :=
  (∃ e, ∀ s, step s = .error e s) ∨
    ∃ make : Nat → Made α, (∀ n, (make n).index = n) ∧
      ∀ s, step s = .ok (make s.next) ⟨s.next + 1⟩

/-- A constructor checks its arguments and gives a condition an identifier. -/
def GivesId (step : Build (Constraint α)) : Prop :=
  (∃ e, step = throw e) ∨ ∃ c, step = Constraint.ofCondition c

theorem GivesId.drawsOne {step : Build (Constraint α)} (h : GivesId step) :
    DrawsOne (Made.constraint <$> step) := by
  rcases h with ⟨e, rfl⟩ | ⟨c, rfl⟩
  · exact .inl ⟨e, fun _ => rfl⟩
  · exact .inr ⟨fun n => .constraint ⟨⟨n⟩, c⟩, fun _ => rfl, fun _ => rfl⟩

theorem givesId_lift {e : Except Error (AffineExpr α)} {f : AffineExpr α → Build (Constraint α)}
    (hf : ∀ a, GivesId (f a)) : GivesId (Build.lift e >>= f) := by
  cases e with
  | ok a => exact hf a
  | error e => exact .inl ⟨e, rfl⟩

theorem givesId_check {P : Prop} [Decidable P] {f : P → Build (Constraint α)}
    (hf : ∀ h, GivesId (f h)) (e : Error) : GivesId (if h : P then f h else throw e) := by
  split
  case isTrue h => exact hf h
  case isFalse => exact .inl ⟨e, rfl⟩

theorem givesId_socColumns (t x : AffineExpr α) : GivesId (Constraint.socColumns t x) :=
  givesId_check (fun _ => .inr ⟨_, rfl⟩) _

theorem givesId_soc (t x : AffineExpr α) : GivesId (Constraint.soc t x) :=
  givesId_check (fun _ => givesId_socColumns t x) _

theorem givesId_expCone (x y z : AffineExpr α) : GivesId (Constraint.expCone x y z) :=
  givesId_check (fun _ => .inr ⟨_, rfl⟩) _

theorem givesId_psd (e : AffineExpr α) (dim : Nat) : GivesId (Constraint.psd e dim) :=
  givesId_check (fun _ => .inr ⟨_, rfl⟩) _

theorem givesId_powCone (x y z : AffineExpr α) (alpha : Float) :
    GivesId (Constraint.powCone x y z alpha) :=
  givesId_check (fun _ => givesId_check (fun _ => .inr ⟨_, rfl⟩) _) _

namespace Call

variable [Zero α] [One α] [Add α] [Mul α] [Neg α]

/-- The building step of a call. -/
def step : Call α → Build (Made α)
  | block size name => Made.block <$> Variable.fresh size name
  | varId => Made.varId <$> Build.varId
  | constrId => Made.constrId <$> Build.constrId
  | zero e => Made.constraint <$> Constraint.zero e
  | nonpos e => Made.constraint <$> Constraint.nonpos e
  | nonneg e => Made.constraint <$> Constraint.nonneg e
  | eq l r => Made.constraint <$> Constraint.eq l r
  | leq l r => Made.constraint <$> Constraint.leq l r
  | geq l r => Made.constraint <$> Constraint.geq l r
  | soc t x => Made.constraint <$> Constraint.soc t x
  | socColumns t x => Made.constraint <$> Constraint.socColumns t x
  | expCone x y z => Made.constraint <$> Constraint.expCone x y z
  | psd e dim => Made.constraint <$> Constraint.psd e dim
  | powCone x y z alpha => Made.constraint <$> Constraint.powCone x y z alpha

theorem drawsOne_step (call : Call α) : DrawsOne call.step := by
  cases call with
  | block size name => exact .inr ⟨fun n => .block ⟨⟨n⟩, size, name⟩, fun _ => rfl, fun _ => rfl⟩
  | varId => exact .inr ⟨fun n => .varId ⟨n⟩, fun _ => rfl, fun _ => rfl⟩
  | constrId => exact .inr ⟨fun n => .constrId ⟨n⟩, fun _ => rfl, fun _ => rfl⟩
  | zero e => exact GivesId.drawsOne (.inr ⟨_, rfl⟩)
  | nonpos e => exact GivesId.drawsOne (.inr ⟨_, rfl⟩)
  | nonneg e => exact GivesId.drawsOne (.inr ⟨_, rfl⟩)
  | eq l r => exact GivesId.drawsOne (givesId_lift fun _ => .inr ⟨_, rfl⟩)
  | leq l r => exact GivesId.drawsOne (givesId_lift fun _ => .inr ⟨_, rfl⟩)
  | geq l r => exact GivesId.drawsOne (givesId_lift fun _ => .inr ⟨_, rfl⟩)
  | soc t x => exact (givesId_soc t x).drawsOne
  | socColumns t x => exact (givesId_socColumns t x).drawsOne
  | expCone x y z => exact (givesId_expCone x y z).drawsOne
  | psd e dim => exact (givesId_psd e dim).drawsOne
  | powCone x y z alpha => exact (givesId_powCone x y z alpha).drawsOne

/-! ## Runs -/

/-- What calls make one after the other, and the supply they leave. A call that fails makes
nothing. -/
def run : List (Call α) → IdSupply → List (Made α) × IdSupply
  | [], s => ([], s)
  | call :: calls, s =>
    match call.step s with
    | .ok made s' => (made :: (run calls s').1, (run calls s').2)
    | .error _ s' => run calls s'

/-- Whatever a run has made is numbered from the first number of the supply on, in the order in
which it was made, and the supply goes on after it. -/
theorem map_index_run (calls : List (Call α)) (s : IdSupply) :
    (run calls s).1.map Made.index = List.range' s.next (run calls s).1.length ∧
      (run calls s).2.next = s.next + (run calls s).1.length := by
  induction calls generalizing s with
  | nil => exact ⟨rfl, rfl⟩
  | cons call calls ih =>
    rcases call.drawsOne_step with ⟨e, he⟩ | ⟨make, hindex, hmake⟩
    · rw [run, he]
      exact ih s
    · obtain ⟨hmap, hnext⟩ := ih ⟨s.next + 1⟩
      rw [run, hmake]
      refine ⟨?_, ?_⟩
      · rw [List.map_cons, hindex, hmap, List.length_cons, List.range'_succ]
      · rw [hnext, List.length_cons, Nat.add_assoc, Nat.add_comm 1]

theorem nodup_map_index_run (calls : List (Call α)) (s : IdSupply) :
    ((run calls s).1.map Made.index).Nodup := by
  rw [(map_index_run calls s).1]
  exact List.nodup_range'

end Call

/-! ## Constraints of a problem -/

variable [Zero α] [One α] [Add α] [Mul α] [Neg α]

/-- The constraints of a problem were all made by calls, from some supply on. A constraint may stand
in the problem more than once. -/
def Problem.Issued (p : Problem α) : Prop :=
  ∃ (calls : List (Call α)) (s : IdSupply),
    ∀ c ∈ p.constraints, .constraint c ∈ (Call.run calls s).1

/-- Constraints with one identifier are one constraint. -/
theorem Problem.Issued.eq_of_id_eq {p : Problem α} (h : p.Issued) {c d : Constraint α}
    (hc : c ∈ p.constraints) (hd : d ∈ p.constraints) (hid : c.id = d.id) : c = d := by
  obtain ⟨calls, s, hmade⟩ := h
  have hindex : (Made.constraint c).index = (Made.constraint d).index := congrArg ConstrId.index hid
  have hmade :=
    List.inj_on_of_nodup_map (Call.nodup_map_index_run calls s) (hmade c hc) (hmade d hd) hindex
  cases hmade
  rfl

end Conic
