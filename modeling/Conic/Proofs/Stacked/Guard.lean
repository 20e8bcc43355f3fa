import Conic.Proofs.ConeProgram.Shape

/-!
# What the check guards

The backend takes programs from anywhere, so that nothing but its check stands between their sizes
and the indices it goes by. Where a word counts the rows of all cones the check is enough: every row
written or picked, every entry read and every multiplier written back is there
(`ConeProgram.InBounds`). Where the count wraps around it is not (`ConeProgram.check_sufficient`): a
program without rows can have a cone of nearly as many rows as there are words, and the order of its
rows is then written out of range (`ConeProgram.hugeCone_passes`).
-/

namespace Conic

/-! ## Cones -/

theorem rows_pos_of_mem_stackedCones {equalities : Nat} {d : ConeDims} {cone : Cone}
    (h : cone ∈ stackedCones equalities d) : 0 < cone.rows := by
  have hrun : ∀ {cone' : Nat → Cone} {n : Nat}, (cone' n).rows = n →
      cone ∈ (if n > 0 then [cone' n] else []) → 0 < cone.rows := by
    intro cone' n hrows hmem
    split at hmem
    case isTrue hn =>
      rw [List.mem_singleton.1 hmem, hrows]
      exact hn
    case isFalse => cases hmem
  rw [stackedCones, List.mem_append, List.mem_append, List.mem_append] at h
  obtain ((h | h) | h) | h := h
  · exact hrun rfl h
  · exact hrun rfl h
  · obtain ⟨k, -, hk⟩ := List.mem_flatMap.1 h
    obtain _ | _ | k := k
    case zero => cases hk
    case succ.zero =>
      rw [List.mem_singleton.1 hk]
      exact Nat.one_pos
    case succ.succ =>
      rw [List.mem_singleton.1 hk]
      exact Nat.succ_pos _
  · rw [List.eq_of_mem_replicate h]
    exact Nat.succ_pos _

/-! ## Faults of the solver -/

/-- If there is an error, it is one of the solver, and none of an index. -/
def SolverFaultsOnly {β : Type} (x : Except Error β) : Prop :=
  ∀ fault, x = .error fault → ∃ f, fault = .solver f

namespace SolverFaultsOnly

variable {β γ : Type}

theorem ok (b : β) : SolverFaultsOnly (.ok b) := nofun

theorem solver (f : SolverFault) : SolverFaultsOnly (.error (.solver f) : Except Error β) := by
  rintro _ ⟨⟩
  exact ⟨f, rfl⟩

theorem bind {x : Except Error β} {g : β → Except Error γ} (hx : SolverFaultsOnly x)
    (hg : ∀ b, x = .ok b → SolverFaultsOnly (g b)) : SolverFaultsOnly (x >>= g) := by
  cases x with
  | ok b => exact hg b rfl
  | error fault =>
    rintro _ ⟨⟩
    exact hx fault rfl

theorem map {x : Except Error β} (hx : SolverFaultsOnly x) (g : β → γ) :
    SolverFaultsOnly (g <$> x) := by
  cases x with
  | ok b => exact ok (g b)
  | error fault =>
    rintro _ ⟨⟩
    exact hx fault rfl

end SolverFaultsOnly

namespace SolverSettings

theorem solverFaultsOnly_withOption (s : SolverSettings) (name : String) (value : OptionValue) :
    SolverFaultsOnly (s.withOption name value) := by
  have hcount : SolverFaultsOnly (countOption name value) := by
    rw [countOption]
    split
    · exact .ok _
    · exact .solver _
  have hnumber : SolverFaultsOnly (numberOption name value) := by
    rw [numberOption]
    split
    · exact .ok _
    · exact .solver _
  unfold withOption
  split
  case h_1 => exact hcount.map _
  case h_9 => exact .solver _
  all_goals exact hnumber.map _

theorem solverFaultsOnly_withOptions (s : SolverSettings) (options : SolverOptions) :
    SolverFaultsOnly (s.withOptions options) := by
  rw [withOptions]
  induction options.toList generalizing s with
  | nil => exact .ok s
  | cons e l ih =>
    rw [List.foldlM_cons]
    exact (s.solverFaultsOnly_withOption e.1 e.2).bind fun s' _ => ih s'

end SolverSettings

namespace ConeProgram

variable {α : Type}

/-! ## The row order -/

namespace HoldsTriples

variable {p : ConeProgram α} (hp : p.HoldsTriples)

include hp

/-- Up to the first exponential row, the stack has the order of the program. -/
theorem getElem?_rowOrder_of_lt {row : Nat} (h : row < p.firstTriple) :
    p.rowOrder[row]? = some row := by
  have hle : p.firstTriple ≤ p.stackRows := Nat.sub_le ..
  rw [hp.rowOrder_eq, swapAfter, List.getElem?_append_left (by simp; omega),
    List.getElem?_take_of_lt h, List.getElem?_range (by omega)]

/-- The row order is its own inverse. -/
theorem getElem?_rowOrder_symm {i row : Nat} (h : p.rowOrder[i]? = some row) :
    p.rowOrder[row]? = some i := by
  obtain ⟨hi, -⟩ := List.getElem?_eq_some_iff.1 h
  have hback : p.rowOrder.map (DenseVector.entry p.rowOrder) = List.range p.stackRows := by
    rw [hp.map_rowOrder hp.length_rowOrder, hp.rowOrder_eq, swapAfter_swapAfter]
  have hrow : row < p.rowOrder.length := by
    rw [hp.length_rowOrder]
    exact hp.lt_of_mem_rowOrder (List.mem_of_getElem? h)
  have hentry := congrArg (·[i]?) hback
  simp only [List.getElem?_map, h, Option.map_some] at hentry
  rw [List.getElem?_range (hp.length_rowOrder ▸ hi), DenseVector.some_entry hrow] at hentry
  exact hentry

/-- Multipliers go to the rows that they belong to. -/
theorem getElem?_swapAfter [Zero α] {v : DenseVector α} (h : v.length = p.stackRows) {i row : Nat}
    (hrow : p.rowOrder[i]? = some row) : (swapAfter p.firstTriple v)[row]? = v[i]? := by
  have hi : i < v.length := by
    rw [h, ← hp.length_rowOrder]
    exact (List.getElem?_eq_some_iff.1 hrow).1
  rw [← hp.map_rowOrder h, List.getElem?_map, hp.getElem?_rowOrder_symm hrow,
    ← DenseVector.some_entry hi]
  rfl

end HoldsTriples

/-! ## The check -/

theorem solverFaultsOnly_check [FiniteTest α] (p : ConeProgram α) : SolverFaultsOnly p.check := by
  rw [check]
  split
  · split
    · exact .ok ()
    · exact .solver _
  · exact .solver _

variable [Zero α] [Add α] {p : ConeProgram α}

/-- All that is picked, read or written by an index on the way to the solver and back is there, and
what the solver is handed fits together. -/
structure InBounds (p : ConeProgram α) : Prop where
  /-- All rows of the order that are written are there. -/
  order : stackedRowOrder? p.a.nrows p.dims = some p.rowOrder
  order_perm : p.rowOrder.Perm (List.range (p.a.nrows + p.g.nrows))
  /-- No row before the exponential ones is moved. -/
  order_before : ∀ row < p.a.nrows + p.dims.linear + p.dims.secondOrder.sum,
    p.rowOrder[row]? = some row
  order_symm : ∀ i row : Nat, p.rowOrder[i]? = some row → p.rowOrder[row]? = some i
  /-- All rows that are picked are rows of one of the two matrices. -/
  selected :
    (SparseMatrix.vstack [p.a, p.g] p.numVars).selectRows? p.rowOrder = some p.stacked.matrix
  matrix_canonical : p.stacked.matrix.Canonical
  matrix_nrows : p.stacked.matrix.nrows = p.a.nrows + p.g.nrows
  matrix_ncols : p.stacked.matrix.ncols = p.c.length
  /-- All entries that are read are entries of one of the two right-hand sides. -/
  read : p.rowOrder.map ((p.b ++ p.h)[·]?) = p.stacked.rhs.map some
  length_rhs : p.stacked.rhs.length = p.stacked.matrix.nrows
  /-- What the solver is handed. -/
  stack : p.stacked? = some p.stacked
  cones_pos : ∀ cone ∈ p.stacked.cones, 0 < cone.rows
  cones_sum : (p.stacked.cones.map Cone.rows).sum = p.stacked.matrix.nrows
  /-- Multipliers are written to every row once, and then cut into those of the two kinds of
  rows. -/
  unstacked : ∀ multipliers : DenseVector α, multipliers.length = p.stacked.matrix.nrows →
    ((p.rowOrder.zip multipliers).map Prod.fst).Perm (List.range p.stacked.matrix.nrows) ∧
      ∃ y z, p.unstackDuals multipliers = .ok (y, z) ∧ y.length = p.a.nrows ∧
        z.length = p.dims.rows ∧
        ∀ i row : Nat, p.rowOrder[i]? = some row → (y ++ z)[row]? = multipliers[i]?

theorem Consistent.inBounds (hc : p.Consistent) (hm : p.InMemory) (hg : p.g.nrows = p.dims.rows) :
    p.InBounds := by
  have hp := hc.stackable_of_g_nrows hg
  have hholds := hp.holdsTriples
  have hrows : p.stacked.matrix.nrows = p.a.nrows + p.g.nrows := stacked_nrows hholds
  have hvector : (p.b ++ p.h).length = p.stackRows := length_append_rows hp.length_b hp.length_h
  have hfirst : p.firstTriple = p.a.nrows + p.dims.linear + p.dims.secondOrder.sum := by
    rw [firstTriple, stackRows, hg, ConeDims.rows]
    omega
  exact
    { order := (hc.stackedRowOrder?_eq hm).trans (if_pos hholds)
      order_perm := hholds.rowOrder_perm
      order_before := fun row hrow => hholds.getElem?_rowOrder_of_lt (hfirst ▸ hrow)
      order_symm := fun i row => hholds.getElem?_rowOrder_symm
      selected := hp.selectRows?_eq hm
      matrix_canonical := p.stacked.matrix.canonical
      matrix_nrows := hrows
      matrix_ncols := rfl
      read := by
        rw [stacked, List.map_map]
        refine List.map_congr_left fun row hrow => (DenseVector.some_entry ?_).symm
        rw [hvector]
        exact hholds.lt_of_mem_rowOrder hrow
      length_rhs := by rw [stacked_rhs hp, length_swapAfter, hvector, hrows, stackRows]
      stack := hp.stacked?_eq hm
      cones_pos := fun cone => rows_pos_of_mem_stackedCones
      cones_sum := by rw [hrows, hg]; exact sum_rows_stackedCones ..
      unstacked := by
        intro multipliers hlen
        have hlen : multipliers.length = p.stackRows := hlen.trans (stacked_nrows hholds)
        obtain ⟨y, z, hduals, hsplit, hy, hz⟩ := exists_unstackDuals hholds hlen
        refine ⟨?_, y, z, hduals, hy, hz.trans hg, fun i row hrow => ?_⟩
        · rw [List.map_fst_zip (by rw [hholds.length_rowOrder, hlen]), stacked_nrows hholds]
          exact hholds.rowOrder_perm
        · rw [← hsplit, hholds.getElem?_swapAfter hlen hrow] }

/-- Once the cones share out the rows of the stack, a word counts the rows of all cones. -/
theorem InBounds.g_nrows (h : p.InBounds) : p.g.nrows = p.dims.rows := by
  have hsum : p.a.nrows + p.dims.rows = p.a.nrows + p.g.nrows :=
    (sum_rows_stackedCones ..).symm.trans (h.cones_sum.trans h.matrix_nrows)
  omega

theorem Stackable.solverFaultsOnly_solve [FiniteTest α] (hp : p.Stackable) (hm : p.InMemory)
    (solver : ConeSolver α) (options : SolverOptions) :
    SolverFaultsOnly (ConeSolver.solve solver p options) := by
  rw [ConeSolver.solve]
  refine p.solverFaultsOnly_check.bind fun _ _ => ?_
  refine (SolverSettings.solverFaultsOnly_withOptions _ _).bind fun settings _ => ?_
  rw [hp.stacked?_eq hm]
  dsimp only
  split
  case h_2 => exact .solver _
  case h_1 outcome _ =>
    rw [SolverOutcome.rawResult]
    split
    case isFalse => exact .solver _
    case isTrue hfits =>
      obtain ⟨y, z, hduals, -⟩ :=
        exists_unstackDuals hp.holdsTriples (hfits.1.trans hp.holdsTriples.length_rowOrder)
      rw [hduals]
      exact .ok _

/-- The check of a program, with sizes and dimensions of any kind, accepts exactly the programs
whose sizes go together and whose numbers are finite, where the rows of the cones are counted by a
word. It is enough if and only if the word has not wrapped around: then every index that is used
before and after the call of the solver is in range, and whatever the solver and the options are, no
error comes from anywhere else than from the solver. In any program that it accepts, a row that is
not there is written if and only if there are fewer rows than the exponential cones need. -/
theorem check_sufficient [FiniteTest α] (hm : p.InMemory) :
    (p.check = .ok () ↔ p.a.ncols = p.c.length ∧ p.g.ncols = p.c.length ∧ p.b.length = p.a.nrows ∧
      p.h.length = p.g.nrows ∧ p.g.nrows = p.dims.total ∧
      ∀ a ∈ p.c ++ p.b ++ p.h ++ p.a.values ++ p.g.values, FiniteTest.isFinite a) ∧
    (p.check = .ok () →
      (p.InBounds ↔ p.dims.rows < wordSize) ∧
      (p.dims.rows < wordSize → ∀ (solver : ConeSolver α) (options : SolverOptions),
        SolverFaultsOnly (ConeSolver.solve solver p options)) ∧
      (stackedRowOrder? p.a.nrows p.dims = none ↔
        p.a.nrows + p.g.nrows < 3 * p.dims.exponential)) := by
  refine ⟨check_eq_ok.trans ⟨?_, ?_⟩, fun h =>
    ⟨⟨fun hin => ?_, fun hrows => ?_⟩, fun hrows => ?_, ?_⟩⟩
  · rintro ⟨hc, hfinite⟩
    exact ⟨hc.a_ncols, hc.g_ncols, hc.length_b, hc.length_h, hc.g_nrows_eq hm, hfinite⟩
  · rintro ⟨ha, hg, hb, hh, hrows, hfinite⟩
    refine ⟨⟨ha, hg, hb, hh, ?_⟩, hfinite⟩
    rw [hrows]
    exact word_of_lt (word_lt _)
  all_goals have hc := consistent_of_check h
  · exact (hc.g_nrows_iff hm).1 hin.g_nrows
  · exact hc.inBounds hm ((hc.g_nrows_iff hm).2 hrows)
  · exact (hc.stackable hm hrows).solverFaultsOnly_solve hm
  · rw [hc.stackedRowOrder?_eq hm, stackRows]
    split
    case isTrue hle => exact iff_of_false (Option.some_ne_none _) (by omega)
    case isFalse hlt => exact iff_of_true rfl (by omega)

theorem allCones_inBounds : allCones.InMemory ∧ allCones.check = .ok () ∧ allCones.InBounds ∧
    allCones.rowOrder = [0, 1, 2, 3, 4, 5, 6, 8, 7] ∧
    allCones.stacked.cones = [.zero 1, .nonneg 1, .nonneg 1, .secondOrder 3, .exponential] := by
  have hm : allCones.InMemory := ⟨by decide, by decide⟩
  have hcheck : allCones.check = .ok () :=
    (check_sufficient hm).1.2 ⟨rfl, rfl, rfl, rfl, by decide, fun _ _ => rfl⟩
  exact ⟨hm, hcheck, ((check_sufficient hm).2 hcheck).1.2 (by decide), rfl, rfl⟩

/-- A program without rows and with one second-order cone so large that, with an exponential one, it
takes as many rows as there are words. -/
def hugeCone : ConeProgram Int where
  c := [1]
  offset := 0
  a := .zeros 0 1
  b := []
  g := .zeros 0 1
  h := []
  dims := { linear := 0, secondOrder := [wordSize - 3], exponential := 1 }

/-- The check counts no rows and lets the program pass, and then the first row of the exponential
cone is written out of range. -/
theorem hugeCone_passes :
    hugeCone.InMemory ∧ hugeCone.dims.rows = wordSize ∧ hugeCone.dims.total = 0 ∧
    hugeCone.check = .ok () ∧ stackedRowOrder? hugeCone.a.nrows hugeCone.dims = none ∧
    ∀ solver : ConeSolver Int, ConeSolver.solve solver hugeCone .empty = .error .rowOutOfRange :=
  ⟨⟨by decide, by decide⟩, by decide, by decide, rfl, by decide, fun _ => rfl⟩

end ConeProgram

end Conic
