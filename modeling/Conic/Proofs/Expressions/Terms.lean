import Conic.Proofs.Expressions.Operations
import Conic.Proofs.SparseMatrix.Canonical

/-!
# Terms

A term says how an affine expression is put together, operation by operation. Building it is what a
caller does, and may fail; its value is that of the formula it spells, without coefficient matrices.
Building is a compiler from terms to coefficient matrices, and a correct one (`Term.build_correct`).
-/

namespace Conic

/-- A program over the operations on affine expressions. -/
inductive Term (α : Type) where
  | var (v : Variable)
  | constant (values : DenseVector α)
  | scalar (value : α)
  | sparse (v : Variable) (coeff : SparseMatrix α) (offset : DenseVector α)
  | dense (v : Variable) (coeff : DenseMatrix α) (offset : DenseVector α)
  | add (a b : Term α)
  | sub (a b : Term α)
  | plus (a : Term α) (value : α)
  | neg (a : Term α)
  | scale (a : Term α) (factor : α)
  | select (a : Term α) (indices : List Nat)
  | index (a : Term α) (i : Nat)
  | sum (a : Term α)

namespace Term

variable {α : Type}

/-- Run the program. -/
def build [Zero α] [One α] [Add α] [Mul α] [Neg α] [BEq α] : Term α → Except Error (AffineExpr α)
  | var v => return .ofVariable v
  | constant values => return .ofConstant values
  | scalar value => return .ofScalar value
  | sparse v coeff offset => AffineExpr.ofSparse v coeff offset
  | dense v coeff offset => AffineExpr.ofDense v coeff offset
  | add a b => do (← a.build).add (← b.build)
  | sub a b => do (← a.build).sub (← b.build)
  | plus a value => (·.plus value) <$> a.build
  | neg a => AffineExpr.neg <$> a.build
  | scale a factor => (·.scale factor) <$> a.build
  | select a indices => do (← a.build).select indices
  | index a i => do (← a.build).index i
  | sum a => AffineExpr.sum <$> a.build

/-- The number of entries of a term. -/
def size : Term α → Nat
  | var v => v.size
  | constant values => values.length
  | scalar _ => 1
  | sparse _ _ offset => offset.length
  | dense _ _ offset => offset.length
  | add a b => if a.size = 1 then b.size else a.size
  | sub a b => if a.size = 1 then b.size else a.size
  | plus a _ => a.size
  | neg a => a.size
  | scale a _ => a.size
  | select _ indices => indices.length
  | index _ _ => 1
  | sum _ => 1

/-- Coefficients fit their variables and offsets, operands of a sum have one size unless one of them
is a single entry, and only entries that are there are picked. -/
def WellFormed : Term α → Prop
  | var _ => True
  | constant _ => True
  | scalar _ => True
  | sparse v coeff offset => coeff.ncols = v.size ∧ coeff.nrows = offset.length
  | dense v coeff offset => coeff.ncols = v.size ∧ coeff.nrows = offset.length
  | add a b => a.WellFormed ∧ b.WellFormed ∧ (a.size = b.size ∨ a.size = 1 ∨ b.size = 1)
  | sub a b => a.WellFormed ∧ b.WellFormed ∧ (a.size = b.size ∨ a.size = 1 ∨ b.size = 1)
  | plus a _ => a.WellFormed
  | neg a => a.WellFormed
  | scale a _ => a.WellFormed
  | select a indices => a.WellFormed ∧ ∀ i ∈ indices, i < a.size
  | index a i => a.WellFormed ∧ i < a.size
  | sum a => a.WellFormed

/-- The variables that occur, picked or not. -/
def vars : Term α → List Variable
  | var v => [v]
  | constant _ => []
  | scalar _ => []
  | sparse v _ _ => [v]
  | dense v _ _ => [v]
  | add a b => a.vars ++ b.vars
  | sub a b => a.vars ++ b.vars
  | plus a _ => a.vars
  | neg a => a.vars
  | scale a _ => a.vars
  | select a _ => a.vars
  | index a _ => a.vars
  | sum a => a.vars

/-- The variables have the sizes of a table. -/
def Over (t : Term α) (width : VarId → Nat) : Prop := ∀ v ∈ t.vars, v.size = width v.id

theorem Over.operands {a b : Term α} {width : VarId → Nat} (h : (a.add b).Over width) :
    a.Over width ∧ b.Over width := List.forall_mem_append.1 h

/-- The vector that a term stands for, given vectors for its variables. -/
def value [CommRing α] (x : Assignment α) : Term α → DenseVector α
  | var v => x v.id
  | constant values => values
  | scalar value => [value]
  | sparse v coeff offset => (coeff.mulVec (x v.id)).add offset
  | dense v coeff offset => (coeff.mulVec (x v.id)).add offset
  | add a b => DenseVector.spread (· + ·) (a.value x) (b.value x)
  | sub a b => DenseVector.spread (· - ·) (a.value x) (b.value x)
  | plus a value => (a.value x).map (· + value)
  | neg a => (a.value x).map (- ·)
  | scale a factor => (a.value x).map (· * factor)
  | select a indices => indices.map (a.value x).entry
  | index a i => [(a.value x).entry i]
  | sum a => [List.sum (a.value x)]

/-! ## Building -/

section Building

variable [Zero α] [One α] [Add α] [Mul α] [Neg α] [BEq α]

/-- Building checks that a term is well formed. -/
theorem shapeChecked_build (t : Term α) : AffineExpr.ShapeChecked t.build t.WellFormed t.size := by
  induction t with
  | var v =>
    exact .inl ⟨trivial, _, rfl,
      by simp [AffineExpr.ofVariable, AffineExpr.size, size, DenseVector.zeros]⟩
  | constant values => exact .inl ⟨trivial, _, rfl, rfl⟩
  | scalar value => exact .inl ⟨trivial, _, rfl, rfl⟩
  | sparse v coeff offset => exact AffineExpr.shapeChecked_ofSparse v coeff offset
  | dense v coeff offset => exact AffineExpr.shapeChecked_ofSparse v (.ofDense coeff) offset
  | add a b iha ihb =>
    refine iha.bind fun e he => ihb.bind fun f hf => ?_
    rw [size, ← he, ← hf]
    exact AffineExpr.shapeChecked_add e f
  | sub a b iha ihb =>
    refine iha.bind fun e he => ihb.bind fun f hf => ?_
    rw [size, ← he, ← hf]
    exact AffineExpr.shapeChecked_sub e f
  | plus a value ih => exact ih.map fun e he => (e.size_plus value).trans he
  | neg a ih => exact ih.map fun e he => e.size_neg.trans he
  | scale a factor ih => exact ih.map fun e he => (e.size_scale factor).trans he
  | select a indices ih =>
    refine ih.bind fun e he => ?_
    rw [← he]
    exact AffineExpr.shapeChecked_select e indices
  | index a i ih =>
    refine ih.bind fun e he => ?_
    -- an index is a list of one
    rw [← he, ← List.forall_mem_singleton (p := (· < e.size))]
    exact AffineExpr.shapeChecked_select e [i]
  | sum a ih => exact ih.map fun e _ => rfl

/-- The blocks are those of the variables, whatever was cancelled or not picked. -/
theorem hasBlocks_of_build {t : Term α} {width : VarId → Nat} (ht : t.Over width) {e : AffineExpr α}
    (h : t.build = .ok e) : e.HasBlocks width (t.vars.map Variable.id) := by
  induction t generalizing e with
  | var v =>
    cases h
    exact AffineExpr.hasBlocks_singleton rfl (ht v List.mem_cons_self)
  | constant values =>
    cases h
    exact fun _ => rfl
  | scalar value =>
    cases h
    exact fun _ => rfl
  | sparse v coeff offset =>
    obtain ⟨hcols, -, hcoeffs, -⟩ := AffineExpr.ofSparse_eq_ok h
    exact AffineExpr.hasBlocks_singleton hcoeffs (hcols.trans (ht v List.mem_cons_self))
  | dense v coeff offset =>
    obtain ⟨hcols, -, hcoeffs, -⟩ := AffineExpr.ofSparse_eq_ok h
    exact AffineExpr.hasBlocks_singleton hcoeffs (hcols.trans (ht v List.mem_cons_self))
  | add a b iha ihb =>
    obtain ⟨f, hf, h⟩ := bind_eq_ok.1 h
    obtain ⟨g, hg, h⟩ := bind_eq_ok.1 h
    rw [vars, List.map_append]
    obtain ⟨hta, htb⟩ := ht.operands
    exact (iha hta hf).add (ihb htb hg) h
  | sub a b iha ihb =>
    obtain ⟨f, hf, h⟩ := bind_eq_ok.1 h
    obtain ⟨g, hg, h⟩ := bind_eq_ok.1 h
    rw [vars, List.map_append]
    obtain ⟨hta, htb⟩ := ht.operands
    exact (iha hta hf).add ((ihb htb hg).of_blocks_eq g.blocks_neg) h
  | plus a value ih =>
    obtain ⟨f, hf, rfl⟩ := map_eq_ok.1 h
    exact (ih ht hf).of_blocks_eq (f.blocks_plus value)
  | neg a ih =>
    obtain ⟨f, hf, rfl⟩ := map_eq_ok.1 h
    exact (ih ht hf).of_blocks_eq f.blocks_neg
  | scale a factor ih =>
    obtain ⟨f, hf, rfl⟩ := map_eq_ok.1 h
    exact (ih ht hf).of_blocks_eq (f.blocks_scale factor)
  | select a indices ih =>
    obtain ⟨f, hf, h⟩ := bind_eq_ok.1 h
    obtain ⟨-, rfl⟩ := AffineExpr.eq_pick_of_select h
    exact (ih ht hf).of_blocks_eq (f.blocks_pick indices)
  | index a i ih =>
    obtain ⟨f, hf, h⟩ := bind_eq_ok.1 h
    obtain ⟨-, rfl⟩ := AffineExpr.eq_pick_of_select h
    exact (ih ht hf).of_blocks_eq (f.blocks_pick [i])
  | sum a ih =>
    obtain ⟨f, hf, rfl⟩ := map_eq_ok.1 h
    exact (ih ht hf).of_blocks_eq f.blocks_sum

end Building

/-! ## Values -/

/-- What was built has the value of the term. -/
theorem value_of_build [CommRing α] [BEq α] [LawfulBEq α] {t : Term α} {width : VarId → Nat}
    (ht : t.Over width) {e : AffineExpr α} (h : t.build = .ok e) {x : Assignment α}
    (hx : ∀ id, (x id).length = width id) : e.value x = t.value x := by
  induction t generalizing e with
  | var v =>
    cases h
    exact AffineExpr.value_ofVariable ((hx v.id).trans (ht v List.mem_cons_self).symm)
  | constant values =>
    cases h
    exact AffineExpr.value_ofConstant values
  | scalar value =>
    cases h
    exact AffineExpr.value_ofConstant [value]
  | sparse v coeff offset => exact AffineExpr.value_ofSparse h
  | dense v coeff offset => exact AffineExpr.value_ofDense h
  | add a b iha ihb =>
    obtain ⟨f, hf, h⟩ := bind_eq_ok.1 h
    obtain ⟨g, hg, h⟩ := bind_eq_ok.1 h
    obtain ⟨hta, htb⟩ := ht.operands
    -- a block of both operands is equally wide in both, so that the coefficients add up
    rw [AffineExpr.value_add (hasBlocks_of_build hta hf) (hasBlocks_of_build htb hg) h, iha hta hf,
      ihb htb hg, value]
  | sub a b iha ihb =>
    obtain ⟨f, hf, h⟩ := bind_eq_ok.1 h
    obtain ⟨g, hg, h⟩ := bind_eq_ok.1 h
    obtain ⟨hta, htb⟩ := ht.operands
    rw [AffineExpr.value_sub (hasBlocks_of_build hta hf) (hasBlocks_of_build htb hg) h, iha hta hf,
      ihb htb hg, value]
  | plus a c ih =>
    obtain ⟨f, hf, rfl⟩ := map_eq_ok.1 h
    rw [AffineExpr.value_plus, ih ht hf, value]
  | neg a ih =>
    obtain ⟨f, hf, rfl⟩ := map_eq_ok.1 h
    rw [AffineExpr.value_neg, ih ht hf, value]
  | scale a factor ih =>
    obtain ⟨f, hf, rfl⟩ := map_eq_ok.1 h
    rw [AffineExpr.value_scale, ih ht hf, value]
  | select a indices ih =>
    obtain ⟨f, hf, h⟩ := bind_eq_ok.1 h
    obtain ⟨hinside, rfl⟩ := AffineExpr.eq_pick_of_select h
    rw [AffineExpr.value_pick hinside, ih ht hf, value]
  | index a i ih =>
    obtain ⟨f, hf, h⟩ := bind_eq_ok.1 h
    obtain ⟨hinside, rfl⟩ := AffineExpr.eq_pick_of_select h
    rw [AffineExpr.value_pick hinside, ih ht hf, value]
    rfl
  | sum a ih =>
    obtain ⟨f, hf, rfl⟩ := map_eq_ok.1 h
    rw [AffineExpr.value_sum, ih ht hf, value]

end Term

/-- An expression of a size, whose coefficient matrices are those of the blocks in a list, in
compressed column form and as wide as a table says. -/
structure AffineExpr.HasShape {α : Type} (e : AffineExpr α) (size : Nat) (width : VarId → Nat)
    (ids : List VarId) : Prop where
  size_eq : e.size = size
  coeffs : ∀ id m, e.coeffs.find? id = some m → m.Canonical ∧ m.nrows = size ∧ m.ncols = width id
  mem_blocks : ∀ id n, (id, n) ∈ e.blocks.entries ↔ id ∈ ids ∧ n = width id
  ascending : e.blocks.keys.Pairwise fun i j => i.index < j.index

theorem AffineExpr.HasBlocks.hasShape {α : Type} {e : AffineExpr α} {width : VarId → Nat}
    {ids : List VarId} (h : e.HasBlocks width ids) {n : Nat} (hn : e.size = n) :
    e.HasShape n width ids where
  size_eq := hn
  coeffs := fun id m hm => by
    have hmem := SortedMap.find?_eq_some_iff.1 hm
    exact ⟨m.canonical, (e.rows_eq m (List.mem_map_of_mem hmem)).trans hn, h.ncols_eq hmem⟩
  mem_blocks := fun _ _ => h.mem_entries
  ascending := by
    rw [SortedMap.keys, List.pairwise_map]
    exact e.blocks.sorted.imp fun hlt => Nat.compare_eq_lt.1 hlt

/-- Building a term is correct. It succeeds if and only if the term is well formed, and otherwise
finds a mismatch of shapes. What it builds has the size and the blocks of the term, every block that
occurs and no other, and over exact scalars the value of the term at every point. -/
theorem Term.build_correct :
    (∀ {α : Type} [Zero α] [One α] [Add α] [Mul α] [Neg α] [BEq α] (t : Term α),
      ((∃ e, t.build = .ok e) ↔ t.WellFormed) ∧
      (¬ t.WellFormed → ∃ fault, t.build = .error (.shapeMismatch fault)) ∧
      ∀ (width : VarId → Nat) (e : AffineExpr α), t.Over width → t.build = .ok e →
        e.HasShape t.size width (t.vars.map Variable.id)) ∧
    ∀ {α : Type} [CommRing α] [BEq α] [LawfulBEq α] (t : Term α) (width : VarId → Nat)
      (e : AffineExpr α), t.Over width → t.build = .ok e →
      ∀ x : Assignment α, (∀ id, (x id).length = width id) →
        e.value x = t.value x ∧ (t.value x).length = t.size := by
  constructor
  · intro α _ _ _ _ _ _ t
    have hchecked := t.shapeChecked_build
    refine ⟨hchecked.exists_iff, hchecked.exists_fault, fun width e ht h => ?_⟩
    exact (hasBlocks_of_build ht h).hasShape (hchecked.size_eq h)
  · intro α _ _ _ t width e ht h x hx
    have hvalue := value_of_build ht h hx
    refine ⟨hvalue, ?_⟩
    rw [← hvalue, AffineExpr.length_value, t.shapeChecked_build.size_eq h]

theorem Term.build_twoBlocks :
    let x : Variable := ⟨⟨0⟩, 3, none⟩
    let y : Variable := ⟨⟨1⟩, 1, none⟩
    let t : Term Int := .sub (.select (.add (.scale (.var x) 2) (.scalar 1)) [2, 0])
      (.sum (.dense y ⟨1, [[3], [0]], by decide⟩ [1, 1]))
    let width : VarId → Nat := fun id => if id = x.id then 3 else 1
    let point : Assignment Int := fun id => if id = x.id then [4, 0, -1] else [5]
    t.Over width ∧ (∀ id, (point id).length = width id) ∧
      (∃ e, t.build = .ok e ∧ e.HasShape 2 width [x.id, y.id] ∧ e.value point = [-18, -8]) ∧
      ∃ fault, (t.add (.var x)).build = .error (.shapeMismatch fault) := by
  intro x y t width point
  have ht : t.Over width := by
    show ∀ v ∈ [x, y], v.size = width v.id
    decide
  have hpoint : ∀ id, (point id).length = width id := by
    intro id
    by_cases hid : id = x.id
    · simp [point, width, hid]
    · simp [point, width, hid]
  have hformed : t.WellFormed :=
    ⟨⟨⟨trivial, trivial, .inr (.inr rfl)⟩, by decide⟩, ⟨rfl, rfl⟩, .inr (.inr rfl)⟩
  have hsizes : ¬ (t.add (.var x)).WellFormed := by
    rintro ⟨_, _, hsizes⟩
    revert hsizes
    decide
  obtain ⟨e, he⟩ := (build_correct.1 t).1.2 hformed
  have hshape := (build_correct.1 t).2.2 width e ht he
  have hvalue := (build_correct.2 t width e ht he point hpoint).1
  exact ⟨ht, hpoint, ⟨e, he, hshape, hvalue⟩, (build_correct.1 (t.add (.var x))).2.1 hsizes⟩

end Conic
