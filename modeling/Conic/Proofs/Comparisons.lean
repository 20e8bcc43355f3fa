import Conic.Proofs.ConeProgram.Feasibility
import Conic.Proofs.Expressions.Sums

/-!
# Comparisons of expressions

A comparison of two expressions becomes a condition on their difference. Over exact scalars the
condition says of the difference what the comparison says of the two sides, entry by entry
(`Comparison.holds_condition`), where a side of a single entry counts for every entry of the other.
-/

namespace Conic

/-! ## Entries of a difference -/

namespace DenseVector

variable {α : Type} [Zero α]

omit [Zero α] in
theorem spread_of_length_ne (f : α → α → α) {v w : DenseVector α} (hv : v.length ≠ 1)
    (hw : w.length ≠ 1) : spread f v w = List.zipWith f v w := by
  match v, w, hv, hw with
  | [], [], _, _ => rfl
  | [], _ :: _ :: _, _, _ => rfl
  | _ :: _ :: _, [], _, _ => rfl
  | _ :: _ :: _, _ :: _ :: _, _, _ => rfl
  | [_], _, hv, _ => exact absurd rfl hv
  | _, [_], _, hw => exact absurd rfl hw

/-- An entry of the combination is made of the entries that count for it. -/
theorem entry_spread (f : α → α → α) {v w : DenseVector α} {i : Nat}
    (hi : i < (spread f v w).length) : (spread f v w).entry i =
      f (v.entry (if v.length = 1 then 0 else i)) (w.entry (if w.length = 1 then 0 else i)) := by
  by_cases hv : v.length = 1
  · obtain ⟨a, rfl⟩ := List.length_eq_one_iff.1 hv
    have hi : i < w.length := by simpa [spread] using hi
    have hcounts : (if w.length = 1 then 0 else i) = i := by
      split <;> omega
    rw [hcounts]
    exact entry_map (f a) hi
  · by_cases hw : w.length = 1
    · obtain ⟨b, rfl⟩ := List.length_eq_one_iff.1 hw
      rw [spread_singleton] at hi ⊢
      have hi : i < v.length := by simpa using hi
      rw [if_neg hv]
      exact entry_map (f · b) hi
    · rw [spread_of_length_ne f hv hw] at hi ⊢
      have hboth : i < v.length ∧ i < w.length := by simpa using hi
      rw [if_neg hv, if_neg hw, entry_of_lt hi, List.getElem_zipWith, entry_of_lt hboth.1,
        entry_of_lt hboth.2]

end DenseVector

namespace AffineExpr

theorem sizesAdd_of_sub {α : Type} [Zero α] [One α] [Add α] [Mul α] [Neg α] {a b e : AffineExpr α}
    (h : a.sub b = .ok e) : SizesAdd a.size b.size e.size := by
  have hchecked := shapeChecked_sub a b
  exact ⟨hchecked.exists_iff.1 ⟨e, h⟩, hchecked.size_eq h⟩

variable {α : Type} [CommRing α] {a b e : AffineExpr α} {width : VarId → Nat}

theorem BuiltOver.exists_hasBlocks [BEq α] (h : e.BuiltOver width) :
    ∃ ids, e.HasBlocks width ids := by
  obtain ⟨t, ht, hbuild⟩ := h
  exact ⟨_, Term.hasBlocks_of_build ht hbuild⟩

/-- An entry of a difference, where the only entry of an operand counts for every entry of the
other. -/
theorem valueAt_sub [BEq α] (ha : a.BuiltOver width) (hb : b.BuiltOver width) (h : a.sub b = .ok e)
    (x : Assignment α) {i : Nat} (hi : i < e.size) :
    e.valueAt x i = a.valueAt x (a.sourceRow i) - b.valueAt x (b.sourceRow i) := by
  obtain ⟨ids, ha⟩ := ha.exists_hasBlocks
  obtain ⟨ids', hb⟩ := hb.exists_hasBlocks
  have hsizes := sizesAdd_of_sub h
  have hvalue := value_sub (x := x) ha hb h
  have hinside : i < (DenseVector.spread (· - ·) (a.value x) (b.value x)).length := by
    rw [← hvalue, length_value]
    exact hi
  have hentry := DenseVector.entry_spread (· - ·) hinside
  rw [← hvalue, entry_value hi, length_value, length_value] at hentry
  calc e.valueAt x i = (a.value x).entry (a.sourceRow i) - (b.value x).entry (b.sourceRow i) :=
    hentry
    _ = a.valueAt x (a.sourceRow i) - b.valueAt x (b.sourceRow i) := by
      rw [entry_value (hsizes.sourceRow_lt hi), entry_value (hsizes.symm.sourceRow_lt hi)]

end AffineExpr

/-! ## Comparisons -/

/-- How two expressions can be compared. -/
inductive Comparison where
  | eq
  | leq
  | geq
  deriving DecidableEq, Repr

namespace Comparison

/-- What a comparison says of two scalars. -/
def Rel {α : Type} [LE α] : Comparison → α → α → Prop
  | eq, a, b => a = b
  | leq, a, b => a ≤ b
  | geq, a, b => a ≥ b

/-- The kind of constraint that a comparison becomes. -/
def kind : Comparison → ConeKind
  | eq => .zero
  | leq => .nonpos
  | geq => .nonpos

/-- What the constraint says of a difference. -/
def condition {α : Type} (e : AffineExpr α) : Comparison → Condition α
  | eq => .zero e
  | leq => .nonpos e
  | geq => .nonpos e

theorem size_condition {α : Type} (c : Comparison) (e : AffineExpr α) :
    (c.condition e).size = e.size := by
  cases c <;> exact Nat.add_zero _

theorem kind_condition {α : Type} (c : Comparison) (e : AffineExpr α) :
    (c.condition e).kind = c.kind := by
  cases c <;> rfl

section Steps

variable {α : Type} [Zero α] [One α] [Add α] [Mul α] [Neg α]

/-- The ways to write a comparison. -/
def steps (l r : AffineExpr α) : Comparison → List (Build (Constraint α))
  | eq => [Constraint.eq l r, l.equals r]
  | leq => [Constraint.leq l r, l.leq r]
  | geq => [Constraint.geq l r, l.geq r]

/-- The difference that the constraint is about. -/
def difference (l r : AffineExpr α) : Comparison → Except Error (AffineExpr α)
  | eq => l.sub r
  | leq => l.sub r
  | geq => r.sub l

/-- However it is written, a comparison makes a constraint of a difference. -/
theorem eq_of_mem_steps {c : Comparison} {l r : AffineExpr α} {step : Build (Constraint α)}
    (h : step ∈ c.steps l r) :
    step = Build.lift (c.difference l r) >>= fun e => Constraint.ofCondition (c.condition e) := by
  cases c with
  | eq => rcases List.mem_pair.1 h with rfl | rfl <;> rfl
  | leq => rcases List.mem_pair.1 h with rfl | rfl <;> rfl
  | geq => rcases List.mem_pair.1 h with rfl | rfl <;> rfl

/-- A step succeeds if there is a difference, and then makes the constraint with the next
identifier. -/
theorem step_eq_ok {c : Comparison} {l r : AffineExpr α} {step : Build (Constraint α)}
    (h : step ∈ c.steps l r) {s s' : IdSupply} {k : Constraint α} : step s = .ok k s' ↔
      ∃ e, c.difference l r = .ok e ∧ k = ⟨⟨s.next⟩, c.condition e⟩ ∧ s' = ⟨s.next + 1⟩ := by
  rw [eq_of_mem_steps h]
  cases c.difference l r with
  | ok e =>
    constructor
    · rintro ⟨⟩
      exact ⟨e, rfl, rfl, rfl⟩
    · rintro ⟨_, ⟨⟩, rfl, rfl⟩
      rfl
  | error fault =>
    constructor
    · intro hstep
      cases hstep
    · rintro ⟨_, ⟨⟩, -⟩

theorem exists_difference_iff (c : Comparison) (l r : AffineExpr α) :
    (∃ e, c.difference l r = .ok e) ↔ l.size = r.size ∨ l.size = 1 ∨ r.size = 1 := by
  cases c with
  | eq => exact (AffineExpr.shapeChecked_sub l r).exists_iff
  | leq => exact (AffineExpr.shapeChecked_sub l r).exists_iff
  | geq =>
    rw [difference, (AffineExpr.shapeChecked_sub r l).exists_iff]
    omega

theorem sizesAdd_of_difference {c : Comparison} {l r e : AffineExpr α}
    (h : c.difference l r = .ok e) :
    AffineExpr.SizesAdd l.size r.size e.size := by
  cases c with
  | eq => exact AffineExpr.sizesAdd_of_sub h
  | leq => exact AffineExpr.sizesAdd_of_sub h
  | geq => exact (AffineExpr.sizesAdd_of_sub h).symm

end Steps

section Meaning

variable {α : Type} [CommRing α] [LinearOrder α] [IsStrictOrderedRing α] [BEq α]
    {width : VarId → Nat}
  {l r : AffineExpr α}

/-- What the condition says of the difference, the comparison says of the two sides. -/
theorem holds_condition (hl : l.BuiltOver width) (hr : r.BuiltOver width) {c : Comparison}
    {e : AffineExpr α} (h : c.difference l r = .ok e) (exp : α → α → α → Prop) (x : Assignment α) :
    (c.condition e).Holds exp x ↔
      ∀ i < e.size, c.Rel (l.valueAt x (l.sourceRow i)) (r.valueAt x (r.sourceRow i)) := by
  cases c with
  | eq =>
    show (∀ i < e.size, e.valueAt x i = 0) ↔ _
    refine forall₂_congr fun i hi => ?_
    rw [AffineExpr.valueAt_sub hl hr h x hi]
    exact sub_eq_zero
  | leq =>
    show (∀ i < e.size, e.valueAt x i ≤ 0) ↔ _
    refine forall₂_congr fun i hi => ?_
    rw [AffineExpr.valueAt_sub hl hr h x hi]
    exact sub_nonpos
  | geq =>
    -- the right side minus the left one
    show (∀ i < e.size, e.valueAt x i ≤ 0) ↔ _
    refine forall₂_congr fun i hi => ?_
    rw [AffineExpr.valueAt_sub hr hl h x hi]
    exact sub_nonpos

/-- Comparisons mean what they say. Between two expressions over variables of one width each, and
however it is written, a comparison succeeds if and only if the sizes are equal or one of them is
one. It makes a constraint as large as the larger side, which says of the difference that all
entries are zero, or that none is above zero. The constraint holds at a point if and only if each
entry of the left side compares in this way with that of the right side, where the only entry of a
side counts for every entry of the other. -/
theorem meaning (c : Comparison) (hl : l.BuiltOver width) (hr : r.BuiltOver width)
    {step : Build (Constraint α)} (hstep : step ∈ c.steps l r) (s : IdSupply) :
    ((∃ k s', step s = .ok k s') ↔ l.size = r.size ∨ l.size = 1 ∨ r.size = 1) ∧
    ∀ k s', step s = .ok k s' → k.kind = c.kind ∧ k.size = (if l.size = 1 then r.size else l.size) ∧
      ∀ (exp : α → α → α → Prop) (x : Assignment α), k.condition.Holds exp x ↔
        ∀ i < k.size, c.Rel (l.valueAt x (l.sourceRow i)) (r.valueAt x (r.sourceRow i)) := by
  constructor
  · rw [← c.exists_difference_iff]
    constructor
    · rintro ⟨k, s', h⟩
      obtain ⟨e, he, -⟩ := (step_eq_ok hstep).1 h
      exact ⟨e, he⟩
    · rintro ⟨e, he⟩
      exact ⟨_, _, (step_eq_ok hstep).2 ⟨e, he, rfl, rfl⟩⟩
  · intro k s' h
    obtain ⟨e, he, rfl, -⟩ := (step_eq_ok hstep).1 h
    have hsize : Constraint.size ⟨⟨s.next⟩, c.condition e⟩ = e.size := c.size_condition e
    rw [hsize]
    exact ⟨c.kind_condition e, (sizesAdd_of_difference he).2, holds_condition hl hr he⟩

end Meaning

/-- Each entry of one block against the sum of all, which is in the same block. -/
theorem overlapping_meaning :
    let x : Variable := ⟨⟨0⟩, 2, none⟩
    let l : AffineExpr Int := .plus (.ofVariable x) 1
    let r : AffineExpr Int := .sum (.ofVariable x)
    let exp : Int → Int → Int → Prop := fun _ _ _ => False
    ∃ k s', l.geq r ⟨7⟩ = .ok k s' ∧ k.kind = .nonpos ∧ k.size = 2 ∧
      k.condition.Holds exp (fun _ => [1, 1]) ∧ ¬ k.condition.Holds exp (fun _ => [3, 1]) := by
  intro x l r exp
  have hl : l.BuiltOver fun _ => 2 := ⟨.plus (.var x) 1, by simp [Term.Over, Term.vars, x], rfl⟩
  have hr : r.BuiltOver fun _ => 2 := ⟨.sum (.var x), by simp [Term.Over, Term.vars, x], rfl⟩
  have hstep : l.geq r ∈ geq.steps l r := List.mem_cons_of_mem _ (List.mem_singleton_self _)
  obtain ⟨hsucceeds, hmeans⟩ := meaning geq hl hr hstep ⟨7⟩
  obtain ⟨k, s', h⟩ := hsucceeds.2 (.inr (.inr rfl))
  obtain ⟨hkind, hsize, hholds⟩ := hmeans k s' h
  have hsize : k.size = 2 := hsize
  refine ⟨k, s', h, hkind, hsize, ?_, ?_⟩
  · rw [hholds, hsize]
    show ∀ i < 2, l.valueAt _ (l.sourceRow i) ≥ r.valueAt _ (r.sourceRow i)
    decide +kernel
  · rw [hholds, hsize]
    show ¬ ∀ i < 2, l.valueAt _ (l.sourceRow i) ≥ r.valueAt _ (r.sourceRow i)
    decide +kernel

end Comparison

end Conic
