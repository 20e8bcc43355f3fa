import Conic.Proofs.ConeProgram.Assembly
import Conic.Proofs.ConeProgram.Faults

/-!
# When there is no cone program

A problem is refused for the first of four reasons: its variables, its objective, the kind of a
constraint, the width of a coefficient matrix (`refusal?`). Nothing else goes wrong, no index leaves
its range and no variable is foreign (`toConeProgram_classified`). What `isAccepted` looks at are
the first three reasons; it decides whether there is a cone program only where no variable occurs
with two widths (`exists_toConeProgram_iff`, `twoWidths_refused`).
-/

namespace Conic

variable {α : Type}

/-- The kinds that a cone program has no rows for. -/
def ConeKind.unsupported : List ConeKind := [nonneg, semidefinite, power]

theorem ConeKind.isSupported_iff {k : ConeKind} : k.isSupported ↔ k ∉ unsupported := by
  cases k <;> decide

namespace Problem

/-! ## Reasons -/

/-- There is not exactly one variable. -/
def variableFault? (p : Problem α) : Option Error :=
  match p.varIds.card with
  | 0 => some (.malformedObjective .noVariables)
  | 1 => none
  | count => some (.malformedObjective (.severalVariables count))

/-- The objective is not to be minimized, or not a single entry. -/
def objectiveFault? (p : Problem α) : Option Error :=
  if p.sense = .maximize then some (.malformedObjective .maximization)
  else if p.objective.size ≠ 1 then some (.malformedObjective (.notScalar p.objective.size))
  else none

/-- A constraint is of a kind without rows; the first one counts. -/
def kindFault? (p : Problem α) : Option Error :=
  (p.constraints.find? (·.kind ∈ ConeKind.unsupported)).map fun c =>
    .unsupportedConstraint c.kind c.id

/-- The widths of the coefficient matrices in the order in which they are looked at: those of the
objective, then those of the constraints in the order of the rows. -/
def rowWidths (p : Problem α) : List Nat :=
  (p.objective :: (p.ofKind .zero ++ p.coneConstraints).flatMap (·.condition.args)).flatMap
    AffineExpr.widths

/-- A coefficient matrix has not the width of the first one of the problem; of several the first one
to be looked at counts. -/
def widthFault? (p : Problem α) : Option Error :=
  p.widths.head?.bind fun first =>
    (p.rowWidths.find? (· ≠ first)).map fun n => .shapeMismatch (.coefficientColumns first n)

/-- Why a problem has no cone program, if it has none. -/
def refusal? (p : Problem α) : Option Error :=
  p.variableFault?.or (p.objectiveFault?.or (p.kindFault?.or p.widthFault?))

theorem variableFault?_eq_none {p : Problem α} : p.variableFault? = none ↔ p.varIds.card = 1 := by
  rw [variableFault?]
  split
  case h_1 hcard => simp [hcard]
  case h_2 hcard => simp [hcard]
  case h_3 hcard => simpa using hcard

theorem objectiveFault?_eq_none {p : Problem α} :
    p.objectiveFault? = none ↔ p.sense = .minimize ∧ p.objective.size = 1 := by
  rw [objectiveFault?]
  cases p.sense with
  | maximize => simp
  | minimize => simp

theorem kindFault?_eq_none {p : Problem α} :
    p.kindFault? = none ↔ ∀ c ∈ p.constraints, c.kind.isSupported := by
  rw [kindFault?, Option.map_eq_none_iff, List.find?_eq_none]
  refine forall₂_congr fun c _ => ?_
  rw [ConeKind.isSupported_iff, decide_eq_true_eq]

theorem widthFault?_eq_some {p : Problem α} {e : Error} :
    p.widthFault? = some e ↔ ∃ first, p.widths.head? = some first ∧
      ∃ n, p.rowWidths.find? (· ≠ first) = some n ∧
        .shapeMismatch (.coefficientColumns first n) = e := by
  rw [widthFault?, Option.bind_eq_some_iff]
  simp only [Option.map_eq_some_iff]

/-- Where all kinds are supported, every width is looked at. -/
theorem rowWidths_perm {p : Problem α} (h : ∀ c ∈ p.constraints, c.kind.isSupported) :
    p.rowWidths.Perm p.widths := by
  rw [widths_eq]
  exact (((zero_append_cone_perm h).flatMap_right _).cons _).flatMap_right _

/-- There is a width to complain about unless all of them are the first one. -/
theorem widthFault?_eq_none {p : Problem α} (h : p.kindFault? = none) :
    p.widthFault? = none ↔ ∀ first, p.widths.head? = some first → ∀ n ∈ p.widths, n = first := by
  rw [widthFault?, Option.bind_eq_none_iff]
  simp only [Option.map_eq_none_iff, List.find?_eq_none,
    (rowWidths_perm (kindFault?_eq_none.1 h)).mem_iff, decide_eq_true_eq, not_not]

theorem refusal?_eq_none {p : Problem α} :
    p.refusal? = none ↔ p.variableFault? = none ∧ p.objectiveFault? = none ∧ p.kindFault? = none ∧
      p.widthFault? = none := by
  rw [refusal?, Option.or_eq_none_iff, Option.or_eq_none_iff, Option.or_eq_none_iff]

/-- A reason is one of three errors, and the last one names two widths that differ. -/
theorem cause_of_refusal? {p : Problem α} {e : Error} (h : p.refusal? = some e) :
    (∃ fault, e = .malformedObjective fault) ∨
      (∃ c ∈ p.constraints, e = .unsupportedConstraint c.kind c.id) ∨
        ∃ first, p.widths.head? = some first ∧ ∃ n ∈ p.widths, n ≠ first ∧
          e = .shapeMismatch (.coefficientColumns first n) := by
  simp only [refusal?, Option.or_eq_some_iff] at h
  rcases h with h | ⟨-, h | ⟨-, h | ⟨hkind, h⟩⟩⟩
  · refine .inl ?_
    rw [variableFault?] at h
    split at h <;> cases h <;> exact ⟨_, rfl⟩
  · refine .inl ?_
    rw [objectiveFault?] at h
    split at h
    · exact ⟨_, (Option.some.inj h).symm⟩
    · split at h <;> cases h
      exact ⟨_, rfl⟩
  · obtain ⟨c, hc, rfl⟩ := Option.map_eq_some_iff.1 h
    exact .inr (.inl ⟨c, List.mem_of_find?_eq_some hc, rfl⟩)
  · obtain ⟨first, hfirst, n, hn, rfl⟩ := widthFault?_eq_some.1 h
    have hmem : n ∈ p.widths :=
      (rowWidths_perm (kindFault?_eq_none.1 hkind)).mem_iff.1 (List.mem_of_find?_eq_some hn)
    exact .inr (.inr ⟨first, hfirst, n, hmem, by simpa using List.find?_some hn, rfl⟩)

/-- The first three reasons are what `isAccepted` looks at. -/
theorem isAccepted_iff {p : Problem α} : p.isAccepted ↔
    p.variableFault? = none ∧ p.objectiveFault? = none ∧ p.kindFault? = none := by
  rw [variableFault?_eq_none, objectiveFault?_eq_none, kindFault?_eq_none, ← length_blocks,
    isAccepted]
  simp only [Bool.and_eq_true, decide_eq_true_eq, List.all_eq_true]
  tauto

/-- The fourth one is that the only variable occurs with two widths. -/
theorem hasWidths_iff {p : Problem α} (hvar : p.variableFault? = none)
    (hkind : p.kindFault? = none) :
    p.HasWidths ↔ p.widthFault? = none := by
  obtain ⟨id, first, hid, hfirst⟩ := exists_single (variableFault?_eq_none.1 hvar)
  rw [widthFault?_eq_none hkind]
  constructor
  · rintro ⟨width, hwidth⟩
    have hall : ∀ n ∈ p.widths, n = width id := by
      intro n hn
      obtain ⟨t, ht, rfl⟩ := List.mem_map.1 hn
      rw [hwidth t ht, hid t ht]
    intro m hm n hn
    rw [hall n hn, hall m (List.mem_of_head? hm)]
  · intro hall
    exact ⟨fun _ => first, fun t ht => hall first hfirst t.2 (List.mem_map_of_mem ht)⟩

theorem refusal?_eq_none_iff_isAccepted {p : Problem α} :
    p.refusal? = none ↔ p.isAccepted ∧ p.HasWidths := by
  rw [refusal?_eq_none, isAccepted_iff]
  constructor
  · rintro ⟨hvar, hobjective, hkind, hwidth⟩
    exact ⟨⟨hvar, hobjective, hkind⟩, (hasWidths_iff hvar hkind).2 hwidth⟩
  · rintro ⟨⟨hvar, hobjective, hkind⟩, hwidths⟩
    exact ⟨hvar, hobjective, hkind, (hasWidths_iff hvar hkind).1 hwidths⟩

/-! ## The steps -/

theorem fault?_singleVariable (p : Problem α) : fault? p.singleVariable = p.variableFault? := by
  rw [variableFault?, ← length_blocks, singleVariable]
  rcases p.blocks.entries with _ | ⟨_, _ | ⟨_, _⟩⟩
  · rfl
  · rfl
  · rfl

theorem entries_of_singleVariable {p : Problem α} {v : Variable} (h : p.singleVariable = .ok v) :
    p.blocks.entries = [(v.id, v.size)] := by
  rw [singleVariable] at h
  split at h
  case h_1 id size hentries =>
    cases h
    exact hentries
  case h_2 => cases h
  case h_3 => cases h

theorem singleVariable_eq_ok {p : Problem α} {v : Variable} (h : p.singleVariable = .ok v) :
    (∀ t ∈ p.occurrences, t.1 = v.id) ∧ p.widths.head? = some v.size :=
  of_blocks_eq_singleton (entries_of_singleVariable h)

theorem fault?_scalarObjective (p : Problem α) : fault? p.scalarObjective = p.objectiveFault? := by
  rw [scalarObjective, objectiveFault?]
  cases p.sense with
  | maximize => rfl
  | minimize =>
    by_cases hsize : p.objective.size = 1
    · simp [hsize, fault?]
    · simp [hsize, fault?]

theorem fault?_ofList (p : Problem α) :
    fault? (ConstraintGroups.ofList p.constraints) = p.kindFault? := by
  have hkind : ∀ k : ConeKind, (!k.isSupported) = decide (k ∈ ConeKind.unsupported) := fun k => by
    cases k <;> rfl
  rw [ConstraintGroups.ofList, kindFault?]
  simp only [hkind]
  cases p.constraints.find? (·.kind ∈ ConeKind.unsupported) with
  | none => rfl
  | some c => rfl

theorem mem_rowConstraints {p : Problem α} {c : Constraint α}
    (h : c ∈ p.ofKind .zero ++ p.coneConstraints) : c ∈ p.constraints ∧ c.kind.isSupported := by
  have hkind : ∀ {k}, k.isSupported → c ∈ p.ofKind k → c ∈ p.constraints ∧ c.kind.isSupported :=
    fun hk hc => ⟨(List.mem_filter.1 hc).1, by rwa [kind_of_mem_ofKind hc]⟩
  simp only [coneConstraints, List.mem_append] at h
  rcases h with h | (h | h) | h
  · exact hkind rfl h
  · exact hkind rfl h
  · exact hkind rfl h
  · exact hkind rfl h

/-- The widths are looked at in three steps. -/
theorem widthFault?_eq_or {p : Problem α} {v : Variable} (hfirst : p.widths.head? = some v.size) :
    p.widthFault? = (v.widthFault? p.objective.widths).or
      ((v.widthFault? (((p.ofKind .zero).flatMap (·.condition.args)).flatMap AffineExpr.widths)).or
        (v.widthFault?
          ((p.coneConstraints.flatMap (·.condition.args)).flatMap AffineExpr.widths))) := by
  rw [← Variable.widthFault?_append, ← Variable.widthFault?_append, ← List.flatMap_append,
    ← List.flatMap_append, ← List.flatMap_cons, widthFault?, hfirst]
  rfl

section Assembly

variable [Zero α] [One α] [Add α] [Mul α] [Neg α]

/-- A cone program is refused for the first reason there is. -/
theorem fault?_toConeProgram (p : Problem α) : fault? p.toConeProgram = p.refusal? := by
  rw [toConeProgram, refusal?, ← fault?_singleVariable, ← fault?_scalarObjective, ← fault?_ofList]
  refine fault?_bind fun v hv => fault?_bind fun objective hobjective =>
    fault?_bind fun groups hgroups => ?_
  obtain ⟨hid, hfirst⟩ := singleVariable_eq_ok hv
  obtain ⟨-, -, rfl⟩ := scalarObjective_eq_ok hobjective
  obtain ⟨-, rfl⟩ := ConstraintGroups.ofList_eq_ok hgroups
  -- from here on only widths matter
  have hstack : ∀ {cs : List (Constraint α)}, cs ⊆ p.ofKind .zero ++ p.coneConstraints →
      fault? (Constraint.stackedRows cs v .standard) =
        v.widthFault? ((cs.flatMap (·.condition.args)).flatMap AffineExpr.widths) := fun hcs =>
    Constraint.fault?_stackedRows (fun c hc => (mem_rowConstraints (hcs hc)).2)
      (fun c hc e he t ht =>
        hid t (mem_occurrences (mem_expressions (mem_rowConstraints (hcs hc)).1 he) ht))
      standard_isPermutation
  have hobjective := AffineExpr.fault?_rowsOver (e := p.objective) (v := v) fun t ht =>
    hid t (mem_occurrences List.mem_cons_self ht)
  rw [widthFault?_eq_or hfirst, ← hobjective, ← hstack (List.subset_append_left _ _),
    ← hstack (List.subset_append_right _ _)]
  exact fault?_bind fun row _ => fault?_bind fun equality _ => fault?_bind_of_ok fun cone _ => rfl

/-- No variable of a problem with a cone program occurs with two widths. -/
theorem hasWidths_of_toConeProgram {p : Problem α} {out : ConeProgram α × Recovery α}
    (h : p.toConeProgram = .ok out) : p.HasWidths := by
  have hnone : p.refusal? = none := by rw [← fault?_toConeProgram, fault?_eq_none]; exact ⟨out, h⟩
  exact (refusal?_eq_none_iff_isAccepted.1 hnone).2

end Assembly

/-! ## Indices -/

/-- The indices used while a problem becomes a cone program are all in range. -/
structure IndicesInRange [Zero α] [One α] [Add α] [Mul α] [Neg α] (p : Problem α) : Prop where
  /-- The rows of cones of several rows are made of their parts. -/
  rows : ∀ c ∈ p.constraints, c.condition.parts .standard ≠ [] → ∀ v, c.rows v .standard =
    RowBlock.slack <$> RowBlock.interleave v c.size (c.condition.parts .standard)
  /-- Each entry of a part has a place, which is a row of the block. -/
  places : ∀ c ∈ p.constraints, ∀ part ∈ c.condition.parts .standard,
    part.2.length = part.1.size ∧ ∀ row ∈ part.2, row < c.size
  /-- So has each coefficient of a part. -/
  coefficients : ∀ c ∈ p.constraints, ∀ part ∈ c.condition.parts .standard, ∀ v rows,
    part.1.rowsOver v = .ok rows → ∀ entry ∈ rows.matrix.entries, entry.row < part.2.length
  /-- Bodies are shared out among bounds that are there. -/
  bounds : ∀ c ∈ p.constraints, c.kind = .secondOrder → 0 < c.condition.numCones
  /-- A scalar objective has a first entry, and its coefficients belong to variables. -/
  objective : p.objective.size = 1 → ∀ v row, p.objective.rowsOver v = .ok row →
    0 < row.offset.length ∧ ∀ entry ∈ row.matrix.entries, entry.col < v.size

theorem indicesInRange [Zero α] [One α] [Add α] [Mul α] [Neg α] (p : Problem α) :
    p.IndicesInRange where
  rows _ _ hparts v := Constraint.rows_eq_interleave hparts v
  places _ _ _ hpart := Condition.mem_parts standard_isPermutation hpart
  coefficients _ _ part hpart v rows hrows entry hentry := by
    rw [(Condition.mem_parts standard_isPermutation hpart).1,
      ← (AffineExpr.rowsOver_fits hrows).nrows_eq]
    exact (SparseMatrix.lt_of_mem_entries hentry).1
  bounds c _ hkind := by
    obtain ⟨id, condition⟩ := c
    cases condition with
    | secondOrder t x pos dvd => exact pos
    | _ => cases hkind
  objective hsize v row hrow := by
    have hfits := AffineExpr.rowsOver_fits hrow
    rw [hfits.length_offset, hsize, ← hfits.ncols_eq]
    exact ⟨Nat.one_pos, fun entry hentry => (SparseMatrix.lt_of_mem_entries hentry).2⟩

/-! ## Results -/

section Results

variable [Zero α] [One α] [Add α] [Mul α] [Neg α]

/-- Every problem has a cone program, or is refused for the first of the four reasons. A reason is
one of three errors; where the kinds are supported, widths are one exactly when two of them differ.
No index is ever out of range. -/
theorem toConeProgram_classified (p : Problem α) :
    (∀ e, p.toConeProgram = .error e ↔ p.refusal? = some e) ∧
      ((∃ q r, p.toConeProgram = .ok (q, r)) ↔ p.refusal? = none) ∧
      (∀ e, p.refusal? = some e →
        (∃ fault, e = .malformedObjective fault) ∨
          (∃ c ∈ p.constraints, e = .unsupportedConstraint c.kind c.id) ∨
            ∃ first, p.widths.head? = some first ∧ ∃ n ∈ p.widths, n ≠ first ∧
              e = .shapeMismatch (.coefficientColumns first n)) ∧
      (p.kindFault? = none →
        (p.widthFault? ≠ none ↔
          ∃ first, p.widths.head? = some first ∧ ∃ n ∈ p.widths, n ≠ first)) ∧
      p.IndicesInRange := by
  refine ⟨fun e => ?_, ?_, fun e => cause_of_refusal?, fun hkind => ?_, p.indicesInRange⟩
  · rw [← fault?_toConeProgram, fault?_eq_some]
  · rw [← fault?_toConeProgram, fault?_eq_none, Prod.exists]
  · rw [Ne, widthFault?_eq_none hkind]
    push Not
    rfl

/-- Being accepted decides whether there is a cone program where no variable occurs with two widths;
where one does, there is none. -/
theorem exists_toConeProgram_iff (p : Problem α) :
    (∃ q r, p.toConeProgram = .ok (q, r)) ↔ p.isAccepted = true ∧ p.HasWidths := by
  rw [← refusal?_eq_none_iff_isAccepted, ← fault?_toConeProgram, fault?_eq_none, Prod.exists]

end Results

/-- A bound on a copy of the variable that claims two entries where the variable has one. -/
def twoWidths : Problem Int :=
  (minimize (.ofVariable ⟨⟨0⟩, 1, none⟩)).withConstraint
    ⟨⟨1⟩, .nonpos (.ofVariable ⟨⟨0⟩, 2, none⟩)⟩

theorem twoWidths_refused :
    twoWidths.isAccepted = true ∧ (¬ ∃ q r, twoWidths.toConeProgram = .ok (q, r)) ∧
      twoWidths.toConeProgram = .error (.shapeMismatch (.coefficientColumns 1 2)) := by
  have hrefused : twoWidths.toConeProgram = .error (.shapeMismatch (.coefficientColumns 1 2)) := rfl
  refine ⟨rfl, ?_, hrefused⟩
  rintro ⟨q, r, h⟩
  rw [hrefused] at h
  cases h

end Problem

end Conic
