import Conic.Proofs.SparseMatrix.Rows
import Conic.Proofs.Stacked.RowOrder

/-!
# Sizes of a program and its stack

The check compares sizes, those of the cones as a word that may have wrapped around, and looks for
numbers that are not finite (`check_eq_ok`). The right-hand sides of a program lie in memory, which
bounds the rows of both matrices, and so the computation of the stack goes wrong in one way only:
there can be fewer rows than the exponential cones need (`Consistent.stacked?_eq`). Where a word
counts the rows of all cones there are enough (`Consistent.stackable`).
-/

namespace Conic.ConeProgram

variable {α : Type}

/-- The sizes of a program go together, as far as words tell. -/
structure Consistent (p : ConeProgram α) : Prop where
  a_ncols : p.a.ncols = p.numVars
  g_ncols : p.g.ncols = p.numVars
  length_b : p.b.length = p.a.nrows
  length_h : p.h.length = p.g.nrows
  g_nrows : word p.g.nrows = p.dims.total

/-- The sizes go together, and there are rows for all exponential cones. -/
structure Stackable (p : ConeProgram α) : Prop extends p.Consistent where
  holdsTriples : p.HoldsTriples

/-- Both right-hand sides lie in memory, as those of any program do that is handed over. -/
structure InMemory (p : ConeProgram α) : Prop where
  length_b : p.b.length < vectorLimit
  length_h : p.h.length < vectorLimit

/-! ## The check -/

/-- On consistent sizes, only a number can be refused. -/
theorem Consistent.check_eq [FiniteTest α] {p : ConeProgram α} (h : p.Consistent) :
    p.check = if p.scalars.all FiniteTest.isFinite then .ok () else .error (.solver .notFinite) :=
  if_pos ⟨h.a_ncols, h.g_ncols, h.length_b, h.length_h, h.g_nrows⟩

theorem consistent_of_check [FiniteTest α] {p : ConeProgram α} (h : p.check = .ok ()) :
    p.Consistent := by
  rw [check] at h
  split at h
  case isFalse => cases h
  case isTrue hsizes =>
    obtain ⟨ha, hg, hb, hh, hrows⟩ := hsizes
    exact ⟨ha, hg, hb, hh, hrows⟩

/-- The check asks for consistent sizes and finite numbers, and for nothing else. -/
theorem check_eq_ok [FiniteTest α] {p : ConeProgram α} :
    p.check = .ok () ↔ p.Consistent ∧ ∀ a ∈ p.scalars, FiniteTest.isFinite a := by
  constructor
  · intro h
    have hp := consistent_of_check h
    refine ⟨hp, ?_⟩
    rw [hp.check_eq] at h
    split at h
    case isTrue hall => exact List.all_eq_true.1 hall
    case isFalse => cases h
  · rintro ⟨hp, hall⟩
    rw [hp.check_eq, if_pos (List.all_eq_true.2 hall)]

/-! ## Rows in memory -/

theorem length_append_rows {p : ConeProgram α} {v w : DenseVector α} (hv : v.length = p.a.nrows)
    (hw : w.length = p.g.nrows) : (v ++ w).length = p.stackRows := by
  rw [List.length_append, hv, hw, stackRows]

namespace Consistent

variable {p : ConeProgram α} (hp : p.Consistent)

include hp

/-- The rows of both matrices together are far fewer than words. -/
theorem stackRows_lt (hm : p.InMemory) : p.stackRows + 3 ≤ wordSize := by
  have hb := hm.length_b
  have hh := hm.length_h
  rw [hp.length_b, vectorLimit] at hb
  rw [hp.length_h, vectorLimit] at hh
  rw [stackRows, wordSize]
  omega

theorem g_nrows_eq (hm : p.InMemory) : p.g.nrows = p.dims.total := by
  have hlt := hp.stackRows_lt hm
  rw [stackRows] at hlt
  rw [← hp.g_nrows, word_of_lt (by omega)]

/-- In memory, the cone rows are those of the cone matrix if and only if a word counts them. -/
theorem g_nrows_iff (hm : p.InMemory) : p.g.nrows = p.dims.rows ↔ p.dims.rows < wordSize := by
  rw [hp.g_nrows_eq hm]
  exact ⟨fun h => h ▸ word_lt _, word_of_lt⟩

theorem stackable_of_g_nrows (h : p.g.nrows = p.dims.rows) : p.Stackable where
  toConsistent := hp
  holdsTriples := by
    rw [HoldsTriples, stackRows, h, ConeDims.rows]
    omega

theorem stackable (hm : p.InMemory) (h : p.dims.rows < wordSize) : p.Stackable :=
  hp.stackable_of_g_nrows ((hp.g_nrows_iff hm).2 h)

/-! ## The computed stack -/

theorem stackedRowOrder?_eq (hm : p.InMemory) :
    stackedRowOrder? p.a.nrows p.dims =
      if 3 * p.dims.exponential ≤ p.stackRows then some p.rowOrder else none :=
  Conic.stackedRowOrder?_eq hp.g_nrows (hp.stackRows_lt hm)

end Consistent

theorem mapM_getElem? [Zero α] {v : DenseVector α} {order : List Nat}
    (h : ∀ row ∈ order, row < v.length) :
    order.mapM (v[·]?) = some (order.map v.entry) := by
  induction order with
  | nil => rfl
  | cons row order ih =>
    obtain ⟨hrow, horder⟩ := List.forall_mem_cons.1 h
    rw [List.mapM_cons, ih horder, ← DenseVector.some_entry hrow]
    rfl

variable [Zero α] [Add α] {p : ConeProgram α}

theorem Stackable.selectRows?_eq (hp : p.Stackable) (hm : p.InMemory) :
    (SparseMatrix.vstack [p.a, p.g] p.numVars).selectRows? p.rowOrder = some p.stacked.matrix := by
  have hlt := hp.stackRows_lt hm
  have hstack : (SparseMatrix.stack [p.a, p.g] p.numVars).nrows = p.stackRows :=
    SparseMatrix.stack_nrows ..
  rw [SparseMatrix.vstack_eq_stack (by rw [← SparseMatrix.stack_nrows _ p.numVars, hstack]; omega)]
  exact SparseMatrix.selectRows?_eq_some fun row hrow =>
    hstack ▸ hp.holdsTriples.lt_of_mem_rowOrder hrow

/-- With rows for the exponential cones, all that is asked for by its row is there. -/
theorem Stackable.stacked?_eq (hp : p.Stackable) (hm : p.InMemory) :
    p.stacked? = some p.stacked := by
  have horder := (hp.stackedRowOrder?_eq hm).trans (if_pos hp.holdsTriples)
  have hrhs := mapM_getElem? fun row hrow =>
    (length_append_rows hp.length_b hp.length_h).symm ▸ hp.holdsTriples.lt_of_mem_rowOrder hrow
  rw [stacked?, horder]
  simp only [Option.bind_eq_bind, Option.bind_some, hp.selectRows?_eq hm, hrhs]
  rfl

/-- The stack of a checked program in memory is computed exactly when there are rows for the
exponential cones. -/
theorem Consistent.stacked?_eq (hp : p.Consistent) (hm : p.InMemory) :
    p.stacked? = if 3 * p.dims.exponential ≤ p.stackRows then some p.stacked else none := by
  split
  case isTrue h => exact Stackable.stacked?_eq ⟨hp, h⟩ hm
  case isFalse h =>
    rw [stacked?, hp.stackedRowOrder?_eq hm, if_neg h]
    rfl

theorem Consistent.eq_stacked (hp : p.Consistent) (hm : p.InMemory) {s : StackedProgram α}
    (hs : p.stacked? = some s) : p.Stackable ∧ s = p.stacked := by
  rw [hp.stacked?_eq hm] at hs
  split at hs
  case isTrue h =>
    cases hs
    exact ⟨⟨hp, h⟩, rfl⟩
  case isFalse => cases hs

end Conic.ConeProgram
