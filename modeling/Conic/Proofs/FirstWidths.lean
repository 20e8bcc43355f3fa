import Conic.Proofs.Blocks
import Mathlib.Data.List.Destutter

/-!
# First widths by sorting

A list of occurrences becomes a table in two steps: a stable sort brings the occurrences of each
variable together without changing their order, and then all but the first of them are dropped. What
is left is the table of first widths (`dropRepeats_sortById`). A problem may therefore sort the
tables of its parts or all its occurrences at once, and the width of a variable is the one of the
first expression in which it occurs (`Problem.blocks_classified`).
-/

namespace Conic

theorem SortedMap.lookup_eq_head?_valuesAt {κ ν : Type} [Ord κ] (k : κ) (l : List (κ × ν)) :
    lookup k l = (valuesAt k l).head? := by
  induction l with
  | nil => rfl
  | cons e l ih =>
    obtain ⟨j, w⟩ := e
    by_cases hk : compare k j = .eq
    · simp [lookup, valuesAt, hk]
    · simp only [lookup, hk, if_false, ih, valuesAt, List.filterMap_cons]

/-! ## Sorting occurrences -/

/-- Whether the variable of one occurrence is not after that of another. -/
def notAfter (s t : VarId × Nat) : Bool := s.1.index ≤ t.1.index

/-- Occurrences by ascending variable, those of one variable in the order of the list. -/
def sortById (l : List (VarId × Nat)) : List (VarId × Nat) := l.mergeSort notAfter

/-- Of occurrences of one variable that follow each other only the first. -/
def dropRepeats (l : List (VarId × Nat)) : List (VarId × Nat) := l.destutter fun s t => s.1 ≠ t.1

theorem notAfter_trans (r s t : VarId × Nat) (hrs : notAfter r s) (hst : notAfter s t) :
    notAfter r t := by
  simp only [notAfter, decide_eq_true_eq] at hrs hst ⊢
  omega

theorem notAfter_total (s t : VarId × Nat) : notAfter s t || notAfter t s := by
  simp only [notAfter, Bool.or_eq_true, decide_eq_true_eq]
  omega

theorem pairwise_sortById (l : List (VarId × Nat)) :
    (sortById l).Pairwise fun s t => s.1.index ≤ t.1.index :=
  (List.pairwise_mergeSort notAfter_trans notAfter_total l).imp of_decide_eq_true

/-- Sorting does not change the order of the widths of a variable. -/
theorem valuesAt_sortById (id : VarId) (l : List (VarId × Nat)) :
    SortedMap.valuesAt id (sortById l) = SortedMap.valuesAt id l := by
  have hvalues : ∀ l : List (VarId × Nat),
      SortedMap.valuesAt id l = (l.filter (·.1 = id)).map Prod.snd := by
    intro l
    rw [← valuesAt_eq_map_snd fun t ht => of_decide_eq_true (List.mem_filter.1 ht).2]
    simp only [SortedMap.valuesAt, List.filterMap_filter, SortedMap.compare_eq_iff,
      eq_comm (a := id)]
    refine List.filterMap_congr fun t _ => ?_
    by_cases ht : t.1 = id <;> simp [ht]
  -- occurrences of one variable are in order, so they stay a sublist, and none gets lost
  have hordered : (l.filter (·.1 = id)).Pairwise fun s t => notAfter s t :=
    List.pairwise_of_forall_mem_list fun s hs t ht => by
      have hs : s.1 = id := of_decide_eq_true (List.mem_filter.1 hs).2
      have ht : t.1 = id := of_decide_eq_true (List.mem_filter.1 ht).2
      simp [notAfter, hs, ht]
  have hsub : (l.filter (·.1 = id)).Sublist (sortById l) :=
    List.sublist_mergeSort notAfter_trans notAfter_total hordered List.filter_sublist
  have hfilter : (l.filter (·.1 = id)).Sublist ((sortById l).filter (·.1 = id)) := by
    simpa only [List.filter_filter, Bool.and_self] using hsub.filter (·.1 = id)
  have hlength : ((sortById l).filter (·.1 = id)).length = (l.filter (·.1 = id)).length :=
    ((List.mergeSort_perm l notAfter).filter _).length_eq
  rw [hvalues, hvalues, hfilter.eq_of_length hlength.symm]

/-! ## Dropping repeats -/

/-- A look-up does not see what is dropped. -/
theorem lookup_dropRepeats (id : VarId) (l : List (VarId × Nat)) :
    SortedMap.lookup id (dropRepeats l) = SortedMap.lookup id l := by
  cases l with
  | nil => rfl
  | cons s l =>
    rw [dropRepeats, List.destutter_cons']
    induction l generalizing s with
    | nil => rfl
    | cons t l ih =>
      by_cases hst : s.1 ≠ t.1
      · rw [List.destutter'_cons, if_pos hst, SortedMap.lookup, ih t]
        rfl
      · rw [List.destutter'_cons, if_neg hst, ih s]
        have hst : s.1 = t.1 := not_not.1 hst
        by_cases hs : compare id s.1 = .eq <;> simp [SortedMap.lookup, ← hst, hs]

theorem pairwise_dropRepeats {l : List (VarId × Nat)}
    (h : l.Pairwise fun s t => s.1.index ≤ t.1.index) :
    ((dropRepeats l).map (·.1.index)).Pairwise (· < ·) := by
  have hle : (dropRepeats l).Pairwise fun s t => s.1.index ≤ t.1.index :=
    h.sublist (List.destutter_sublist _ l)
  have hne : (dropRepeats l).IsChain fun s t => s.1 ≠ t.1 := List.isChain_destutter _ l
  have hlt : (dropRepeats l).IsChain fun s t => s.1.index < t.1.index := by
    refine List.isChain_iff_getElem.2 fun i hi => Nat.lt_of_le_of_ne ?_ fun heq => ?_
    · exact List.pairwise_iff_getElem.1 hle i (i + 1) (Nat.lt_of_succ_lt hi) hi (Nat.lt_succ_self i)
    · exact List.isChain_iff_getElem.1 hne i hi (congrArg VarId.mk heq)
  exact List.isChain_iff_pairwise.1 ((List.isChain_map _).2 hlt)

/-- Sorting and dropping make the table of first widths. -/
theorem dropRepeats_sortById (l : List (VarId × Nat)) :
    dropRepeats (sortById l) = (firstWidths l).entries := by
  have hsorted : (dropRepeats (sortById l)).Pairwise fun s t => compare s.1 t.1 = .lt :=
    (List.pairwise_map.1 (pairwise_dropRepeats (pairwise_sortById l))).imp Nat.compare_eq_lt.2
  have htable : ⟨dropRepeats (sortById l), hsorted⟩ = firstWidths l := by
    refine SortedMap.ext_find? fun id => ?_
    rw [find?_firstWidths, ← valuesAt_sortById, ← SortedMap.lookup_eq_head?_valuesAt]
    exact lookup_dropRepeats id (sortById l)
  exact congrArg SortedMap.entries htable

/-! ## The table of a problem -/

variable {α : Type}

namespace Problem

theorem find?_blocks (p : Problem α) (id : VarId) :
    p.blocks.find? id = p.expressions.findSome? fun e =>
      (e.coeffs.find? id).map SparseMatrix.ncols := by
  rw [blocks_eq, occurrences, find?_firstWidths_flatMap]
  simp only [firstWidths_entries, AffineExpr.blocks, SortedMap.find?_mapValues]

/-- The width of a variable is that in the first expression that has it. -/
theorem find?_blocks_eq_some (p : Problem α) {id : VarId} {n : Nat} :
    p.blocks.find? id = some n ↔ ∃ before e after m, p.expressions = before ++ e :: after ∧
      (∀ d ∈ before, id ∉ d.coeffs.keys) ∧ e.coeffs.find? id = some m ∧ m.ncols = n := by
  have hnone : ∀ e : AffineExpr α,
      (e.coeffs.find? id).map SparseMatrix.ncols = none ↔ id ∉ e.coeffs.keys := by
    intro e
    rw [SortedMap.mem_keys_iff, Option.map_eq_none_iff, Option.not_isSome_iff_eq_none]
  rw [find?_blocks, List.findSome?_eq_some_iff]
  simp only [hnone, Option.map_eq_some_iff]
  constructor
  · rintro ⟨before, e, after, hsplit, ⟨m, hm, hn⟩, hbefore⟩
    exact ⟨before, e, after, m, hsplit, hbefore, hm, hn⟩
  · rintro ⟨before, e, after, m, hsplit, hbefore, hm, hn⟩
    exact ⟨before, e, after, hsplit, ⟨m, hm, hn⟩, hbefore⟩

theorem mem_keys_blocks_iff (p : Problem α) {id : VarId} : id ∈ p.blocks.keys ↔
    id ∈ p.objective.coeffs.keys ∨ ∃ c ∈ p.constraints, ∃ e ∈ c.condition.args,
      id ∈ e.coeffs.keys := by
  rw [mem_keys_blocks, mem_varIds, expressions]
  simp only [List.mem_cons, List.mem_flatMap]
  constructor
  · rintro ⟨e, rfl | ⟨c, hc, he⟩, hid⟩
    · exact .inl hid
    · exact .inr ⟨c, hc, e, he, hid⟩
  · rintro (hid | ⟨c, hc, e, he, hid⟩)
    · exact ⟨_, .inl rfl, hid⟩
    · exact ⟨e, .inr ⟨c, hc, he⟩, hid⟩

theorem blocks_eq_dropRepeats (p : Problem α) :
    p.blocks.entries = dropRepeats (sortById p.occurrences) := by
  rw [dropRepeats_sortById, blocks_eq]

/-- The table of a problem, whatever widths its variables have in it. It goes up strictly by
variable and has those that occur in the objective or in an argument of a constraint, and no others.
The width of a variable is the number of columns of its matrix in the first expression that has it,
where the objective comes before the constraints and these come in order, as their arguments do. The
same table comes out if the occurrences of each constraint are sorted and freed of repeats, then
those of the whole problem, and if this is done once for all of them. -/
theorem blocks_classified (p : Problem α) :
    (p.blocks.entries.map (·.1.index)).Pairwise (· < ·) ∧
    (∀ id, id ∈ p.blocks.keys ↔
      id ∈ p.objective.coeffs.keys ∨ ∃ c ∈ p.constraints, ∃ e ∈ c.condition.args,
        id ∈ e.coeffs.keys) ∧
    (∀ id n, p.blocks.find? id = some n ↔ ∃ before e after m,
      p.objective :: p.constraints.flatMap (·.condition.args) = before ++ e :: after ∧
        (∀ d ∈ before, id ∉ d.coeffs.keys) ∧ e.coeffs.find? id = some m ∧ m.ncols = n) ∧
    p.blocks.entries = dropRepeats (sortById (p.objective.blocks.entries ++
      p.constraints.flatMap fun c =>
        dropRepeats (sortById (c.condition.args.flatMap (·.blocks.entries))))) ∧
    p.blocks.entries = dropRepeats (sortById (p.expressions.flatMap (·.blocks.entries))) := by
  refine ⟨?_, fun id => p.mem_keys_blocks_iff, fun id n => p.find?_blocks_eq_some, ?_,
    p.blocks_eq_dropRepeats⟩
  · rw [blocks_eq_dropRepeats]
    exact pairwise_dropRepeats (pairwise_sortById _)
  · -- the parts have the tables of the definition, each of them first widths
    simp only [dropRepeats_sortById]
    rfl

/-- The objective has two columns for the variable, each of two constraints another number. -/
example :
    let e (n : Nat) : AffineExpr Int := .ofVariable ⟨⟨4⟩, n, none⟩
    let f : AffineExpr Int := .ofVariable ⟨⟨1⟩, 5, none⟩
    (Problem.minimize (e 2)).subjectTo
      [⟨⟨7⟩, .zero (e 3)⟩, ⟨⟨8⟩, .exponential (e 1) f.sum (e 1) rfl rfl⟩]
      |>.blocks.entries = [(⟨1⟩, 5), (⟨4⟩, 2)] := by
  decide

end Problem

end Conic
