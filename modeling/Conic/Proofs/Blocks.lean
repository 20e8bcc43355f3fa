import Conic.Problem
import Conic.Proofs.Recovery
import Mathlib.Data.Finset.Dedup
import Mathlib.Data.Finset.Card

/-!
# The variables of a problem

A variable may occur in many expressions of a problem, in each of them with the width of its
coefficient matrix there. The table of the problem keeps the first width of each variable:
constraints make tables of their own, which changes nothing (`blocks_eq`). The table has one entry
for each variable (`length_blocks`), and where the widths of each variable agree it does not depend
on the order of the expressions (`blocks_eq_of_perm`).
-/

namespace Conic

variable {α : Type}

/-! ## Tables of first widths -/

section FirstWidths

theorem find?_firstWidths (l : List (VarId × Nat)) (id : VarId) :
    (firstWidths l).find? id = (SortedMap.valuesAt id l).head? := by
  have hjoined : ∀ ws : List Nat, SortedMap.joined (fun first _ => first) ws = ws.head? := by
    intro ws
    cases ws with
    | nil => rfl
    | cons w ws =>
      have hkeep : ws.foldl (fun first _ => first) w = w := by
        induction ws with
        | nil => rfl
        | cons _ ws ih => exact ih
      exact congrArg some hkeep
  rw [firstWidths, SortedMap.find?_ofListWith, hjoined]

/-- The table of the entries of a table is the table. -/
theorem firstWidths_entries (m : SortedMap VarId Nat) : firstWidths m.entries = m := by
  refine SortedMap.ext_find? fun id => ?_
  rw [find?_firstWidths, SortedMap.valuesAt_entries]
  cases m.find? id <;> rfl

theorem find?_firstWidths_flatMap {β : Type} (xs : List β) (f : β → List (VarId × Nat))
    (id : VarId) :
    (firstWidths (xs.flatMap f)).find? id = xs.findSome? fun x => (firstWidths (f x)).find? id := by
  simp only [find?_firstWidths, SortedMap.valuesAt, List.filterMap_flatMap, List.head?_flatMap]

theorem find?_firstWidths_append (l l' : List (VarId × Nat)) (id : VarId) :
    (firstWidths (l ++ l')).find? id =
      ((firstWidths l).find? id).or ((firstWidths l').find? id) := by
  simp only [find?_firstWidths, SortedMap.valuesAt, List.filterMap_append, List.head?_append]

/-- Parts of a list may be replaced by their tables. -/
theorem firstWidths_flatMap_entries {β : Type} (xs : List β) (f : β → List (VarId × Nat)) :
    firstWidths (xs.flatMap fun x => (firstWidths (f x)).entries) = firstWidths (xs.flatMap f) := by
  refine SortedMap.ext_find? fun id => ?_
  simp only [find?_firstWidths_flatMap, firstWidths_entries]

theorem mem_keys_firstWidths {l : List (VarId × Nat)} {id : VarId} :
    id ∈ (firstWidths l).keys ↔ id ∈ l.map Prod.fst := by
  rw [SortedMap.mem_keys_iff, find?_firstWidths, List.isSome_head?, Ne,
    List.eq_nil_iff_forall_not_mem]
  simp [SortedMap.mem_valuesAt]

theorem valuesAt_eq_map_snd {l : List (VarId × Nat)} {id : VarId} (h : ∀ t ∈ l, t.1 = id) :
    SortedMap.valuesAt id l = l.map Prod.snd := by
  rw [← List.filterMap_eq_map, SortedMap.valuesAt]
  refine List.filterMap_congr fun t ht => ?_
  rw [if_pos (SortedMap.compare_eq_iff.2 (h t ht).symm)]
  rfl

/-- Where every variable has one width, the table has it for each variable that occurs. -/
theorem find?_firstWidths_of_width {l : List (VarId × Nat)} {width : VarId → Nat}
    (h : ∀ t ∈ l, t.2 = width t.1) (id : VarId) :
    (firstWidths l).find? id = if id ∈ l.map Prod.fst then some (width id) else none := by
  have hocc : id ∈ l.map Prod.fst ↔ ((firstWidths l).find? id).isSome := by
    rw [← mem_keys_firstWidths, SortedMap.mem_keys_iff]
  simp only [hocc, find?_firstWidths]
  cases hhead : (SortedMap.valuesAt id l).head? with
  | none => rfl
  | some n => exact congrArg some (h (id, n) (SortedMap.mem_valuesAt.1 (List.mem_of_head? hhead)))

theorem firstWidths_eq_of_perm {l l' : List (VarId × Nat)} (h : l.Perm l') {width : VarId → Nat}
    (hl : ∀ t ∈ l, t.2 = width t.1) : firstWidths l = firstWidths l' := by
  have hl' : ∀ t ∈ l', t.2 = width t.1 := fun t ht => hl t (h.mem_iff.2 ht)
  refine SortedMap.ext_find? fun id => ?_
  simp only [find?_firstWidths_of_width hl, find?_firstWidths_of_width hl',
    (h.map Prod.fst).mem_iff]

end FirstWidths

/-! ## Occurrences -/

namespace AffineExpr

/-- The widths of the coefficient matrices, by ascending variable. -/
def widths (e : AffineExpr α) : List Nat := e.blocks.values

end AffineExpr

namespace Problem

/-- The objective and the arguments of the constraints, in the order of the problem. -/
def expressions (p : Problem α) : List (AffineExpr α) :=
  p.objective :: p.constraints.flatMap (·.condition.args)

/-- Every occurrence of a variable in an expression, with the width of its coefficient matrix
there. -/
def occurrences (p : Problem α) : List (VarId × Nat) := p.expressions.flatMap (·.blocks.entries)

/-- The variables that occur. -/
def varIds (p : Problem α) : Finset VarId := (p.occurrences.map Prod.fst).toFinset

/-- The widths of all coefficient matrices, in the order of the expressions. -/
def widths (p : Problem α) : List Nat := p.occurrences.map Prod.snd

/-- No variable occurs with two widths. -/
def HasWidths (p : Problem α) : Prop := ∃ width : VarId → Nat, ∀ t ∈ p.occurrences, t.2 = width t.1

theorem mem_occurrences {p : Problem α} {e : AffineExpr α} (he : e ∈ p.expressions)
    {t : VarId × Nat} (ht : t ∈ e.blocks.entries) :
    t ∈ p.occurrences :=
  List.mem_flatMap.2 ⟨e, he, ht⟩

theorem mem_expressions {p : Problem α} {c : Constraint α} (hc : c ∈ p.constraints)
    {e : AffineExpr α} (he : e ∈ c.condition.args) : e ∈ p.expressions :=
  List.mem_cons_of_mem _ (List.mem_flatMap.2 ⟨c, hc, he⟩)

theorem mem_varIds {p : Problem α} {id : VarId} :
    id ∈ p.varIds ↔ ∃ e ∈ p.expressions, id ∈ e.coeffs.keys := by
  have hkeys : ∀ e : AffineExpr α, e.blocks.entries.map Prod.fst = e.coeffs.keys := fun e =>
    SortedMap.keys_mapValues SparseMatrix.ncols e.coeffs
  rw [varIds, List.mem_toFinset, occurrences, List.map_flatMap, List.mem_flatMap]
  simp only [hkeys]

theorem widths_eq (p : Problem α) : p.widths = p.expressions.flatMap AffineExpr.widths := by
  rw [widths, occurrences, List.map_flatMap]
  rfl

/-! ## The table of a problem -/

/-- The table goes through all expressions; the tables that the constraints make for themselves drop
only widths that come later. -/
theorem blocks_eq (p : Problem α) : p.blocks = firstWidths p.occurrences := by
  have hconstraints : firstWidths (p.constraints.flatMap (·.blocks.entries)) =
      firstWidths (p.constraints.flatMap fun c => c.condition.args.flatMap (·.blocks.entries)) :=
    firstWidths_flatMap_entries ..
  refine SortedMap.ext_find? fun id => ?_
  rw [blocks, find?_firstWidths_append, hconstraints, ← find?_firstWidths_append, occurrences,
    expressions, List.flatMap_cons, List.flatMap_assoc]

theorem mem_keys_blocks {p : Problem α} {id : VarId} : id ∈ p.blocks.keys ↔ id ∈ p.varIds := by
  rw [blocks_eq, mem_keys_firstWidths, varIds, List.mem_toFinset]

/-- The table has one entry for each variable. -/
theorem length_blocks (p : Problem α) : p.blocks.entries.length = p.varIds.card := by
  have hkeys : p.blocks.keys.toFinset = p.varIds := by
    ext id
    rw [List.mem_toFinset, mem_keys_blocks]
  rw [← hkeys, List.toFinset_card_of_nodup p.blocks.nodup_keys, SortedMap.keys, List.length_map]

/-- A single variable has the first of all widths. -/
theorem of_blocks_eq_singleton {p : Problem α} {id : VarId} {n : Nat}
    (h : p.blocks.entries = [(id, n)]) :
    (∀ t ∈ p.occurrences, t.1 = id) ∧ p.widths.head? = some n := by
  have hkeys : p.blocks.keys = [id] := by rw [SortedMap.keys, h]; rfl
  have hall : ∀ t ∈ p.occurrences, t.1 = id := by
    intro t ht
    have hmem : t.1 ∈ p.blocks.keys :=
      mem_keys_blocks.2 (List.mem_toFinset.2 (List.mem_map_of_mem ht))
    rwa [hkeys, List.mem_singleton] at hmem
  have hfind : p.blocks.find? id = some n :=
    SortedMap.find?_eq_some_iff.2 (by rw [h]; exact List.mem_singleton_self _)
  rw [blocks_eq, find?_firstWidths, valuesAt_eq_map_snd hall] at hfind
  exact ⟨hall, hfind⟩

theorem exists_single {p : Problem α} (h : p.varIds.card = 1) :
    ∃ id n, (∀ t ∈ p.occurrences, t.1 = id) ∧ p.widths.head? = some n := by
  obtain ⟨⟨id, n⟩, hentries⟩ := List.length_eq_one_iff.1 (p.length_blocks.trans h)
  exact ⟨id, n, of_blocks_eq_singleton hentries⟩

/-- Where widths agree, the order of the expressions does not matter. -/
theorem blocks_eq_of_perm {p p' : Problem α} (hwidths : p.HasWidths)
    (h : p.occurrences.Perm p'.occurrences) : p.blocks = p'.blocks := by
  obtain ⟨width, hwidth⟩ := hwidths
  rw [blocks_eq, blocks_eq, firstWidths_eq_of_perm h hwidth]

end Problem

end Conic
