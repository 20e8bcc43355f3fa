import Conic.Proofs.Blocks
import Conic.Proofs.ConeProgram.Slack

/-!
# Why there are no rows

Of steps that come one after the other the first one to fail tells why the whole fails
(`fault?_bind`, `fault?_mapM`). When a variable is the only one to occur, an expression can fail to
be read off in it for one reason: the width of its coefficient matrix (`fault?_rowsOver`). Nothing
is added on the way to the rows of a constraint, because the entries of its arguments have places
inside its block (`mem_parts`, `fault?_rows`), so a stack of constraints fails at the first width
that is not the one of the variable (`fault?_stackedRows`).
-/

namespace Conic

/-! ## The first step that fails -/

section Steps

variable {ε β γ : Type}

/-- The error of a step that failed. -/
def fault? : Except ε β → Option ε
  | .ok _ => none
  | .error e => some e

theorem fault?_eq_none {x : Except ε β} : fault? x = none ↔ ∃ b, x = .ok b := by
  cases x <;> simp [fault?]

theorem fault?_eq_some {x : Except ε β} {e : ε} : fault? x = some e ↔ x = .error e := by
  cases x <;> simp [fault?]

theorem fault?_map (f : β → γ) (x : Except ε β) : fault? (f <$> x) = fault? x := by
  cases x <;> rfl

theorem fault?_bind {x : Except ε β} {f : β → Except ε γ} {g : Option ε}
    (h : ∀ b, x = .ok b → fault? (f b) = g) : fault? (x >>= f) = (fault? x).or g := by
  cases x with
  | ok b => exact h b rfl
  | error e => rfl

theorem fault?_bind_of_ok {x : Except ε β} {f : β → Except ε γ}
    (h : ∀ b, x = .ok b → fault? (f b) = none) : fault? (x >>= f) = fault? x := by
  rw [fault?_bind h, Option.or_none]

theorem findSome?_cons_eq_or (f : β → Option ε) (b : β) (l : List β) :
    (b :: l).findSome? f = (f b).or (l.findSome? f) := by
  rw [List.findSome?_cons]
  cases f b <;> rfl

theorem findSome?_congr {f f' : β → Option ε} {l : List β} (h : ∀ b ∈ l, f b = f' b) :
    l.findSome? f = l.findSome? f' := by
  induction l with
  | nil => rfl
  | cons b l ih =>
    rw [findSome?_cons_eq_or, findSome?_cons_eq_or, h b List.mem_cons_self,
      ih fun d hd => h d (List.mem_cons_of_mem _ hd)]

theorem fault?_mapM (f : β → Except ε γ) (l : List β) :
    fault? (l.mapM f) = l.findSome? fun b => fault? (f b) := by
  induction l with
  | nil => rfl
  | cons b l ih =>
    rw [List.mapM_cons, findSome?_cons_eq_or, ← ih]
    refine fault?_bind fun c _ => ?_
    cases l.mapM f <;> rfl

end Steps

variable {α : Type}

/-! ## Widths -/

/-- What the first width that is not the one of the variable does. -/
def Variable.widthFault? (v : Variable) (widths : List Nat) : Option Error :=
  (widths.find? (· ≠ v.size)).map fun n => .shapeMismatch (.coefficientColumns v.size n)

theorem Variable.widthFault?_append (v : Variable) (ws ws' : List Nat) :
    v.widthFault? (ws ++ ws') = (v.widthFault? ws).or (v.widthFault? ws') := by
  rw [widthFault?, List.find?_append, Option.map_or]
  rfl

theorem Variable.widthFault?_flatMap {β : Type} (v : Variable) (f : β → List Nat) (xs : List β) :
    v.widthFault? (xs.flatMap f) = xs.findSome? fun x => v.widthFault? (f x) := by
  rw [widthFault?, List.find?_flatMap, List.map_findSome?]
  rfl

/-- In the only variable that it has, an expression can be read off unless its width is wrong. -/
theorem AffineExpr.fault?_rowsOver {e : AffineExpr α} {v : Variable}
    (h : ∀ t ∈ e.blocks.entries, t.1 = v.id) : fault? (e.rowsOver v) = v.widthFault? e.widths := by
  have hkeys : e.coeffs.keys.find? (· ≠ v.id) = none := by
    refine List.find?_eq_none.2 fun k hk => ?_
    obtain ⟨t, ht, rfl⟩ := List.mem_map.1 hk
    simpa using h _ (List.mem_map_of_mem ht)
  have hwidths : e.widths = ((e.coeffs.find? v.id).map SparseMatrix.ncols).toList := by
    rw [← SortedMap.find?_mapValues, ← SortedMap.valuesAt_entries]
    exact (valuesAt_eq_map_snd h).symm
  rw [rowsOver, hkeys, hwidths, Variable.widthFault?]
  cases e.coeffs.find? v.id with
  | none => rfl
  | some m =>
    by_cases hm : m.ncols = v.size
    · simp [hm, fault?]
    · simp [hm, fault?]

/-! ## Places -/

/-- The arguments of cones of several rows, each with the rows on which its entries are placed. -/
def Condition.parts (o : ExpOrder) : Condition α → List (AffineExpr α × List Nat)
  | secondOrder t x _ _ =>
    [(t, boundRows t.size (x.size / t.size)), (x, bodyRows t.size (x.size / t.size))]
  | exponential x y z _ _ =>
    [(x, tripleRows x.size o.x), (y, tripleRows x.size o.y), (z, tripleRows x.size o.z)]
  | _ => []

/-- The rows of the arguments, entry by entry. -/
def Condition.rowLists (o : ExpOrder) (c : Condition α) : List (List Nat) :=
  match c with
  | secondOrder t x _ _ =>
    [boundRows t.size (x.size / t.size), bodyRows t.size (x.size / t.size)]
  | exponential x _ _ _ _ => [tripleRows x.size o.x, tripleRows x.size o.y, tripleRows x.size o.z]
  | _ => [List.range c.size]

theorem Condition.flatten_rowLists_perm {o : ExpOrder} (ho : o.IsPermutation) (c : Condition α) :
    (c.rowLists o).flatten.Perm (List.range c.size) := by
  cases c with
  | secondOrder t x pos dvd =>
    rw [size_secondOrder]
    simpa [rowLists] using bound_body_perm t.size (x.size / t.size)
  | exponential x y z hy hz =>
    rw [size_exponential, Nat.mul_comm]
    simpa [rowLists] using triple_perm ho x.size
  | _ => simp [rowLists]

theorem Condition.parts_eq_zip {o : ExpOrder} {c : Condition α} (h : c.parts o ≠ []) :
    c.parts o = c.args.zip (c.rowLists o) ∧
      (c.parts o).flatMap Prod.snd = (c.rowLists o).flatten := by
  cases c with
  | secondOrder t x pos dvd => exact ⟨rfl, by simp [parts, rowLists]⟩
  | exponential x y z hy hz => exact ⟨rfl, by simp [parts, rowLists]⟩
  | _ => exact absurd rfl h

/-- Every entry of an argument has a place, and the place is a row of the block. -/
theorem Condition.mem_parts {o : ExpOrder} (ho : o.IsPermutation) {c : Condition α}
    {part : AffineExpr α × List Nat} (h : part ∈ c.parts o) :
    part.2.length = part.1.size ∧ ∀ row ∈ part.2, row < c.size := by
  constructor
  · cases c with
    | secondOrder t x pos dvd =>
      simp only [parts, List.mem_cons, List.not_mem_nil, or_false] at h
      rcases h with rfl | rfl
      · simp
      · simp [Nat.mul_div_cancel' dvd]
    | exponential x y z hy hz =>
      simp only [parts, List.mem_cons, List.not_mem_nil, or_false] at h
      rcases h with rfl | rfl | rfl <;> simp [hy, hz]
    | _ => cases h
  · intro row hrow
    have hmem : row ∈ (c.rowLists o).flatten := by
      rw [← (parts_eq_zip (List.ne_nil_of_mem h)).2]
      exact List.mem_flatMap.2 ⟨part, h, hrow⟩
    exact List.mem_range.1 ((flatten_rowLists_perm ho c).subset hmem)

namespace RowBlock

variable [Zero α] [Add α]

omit [Zero α] in
theorem length_offset_of_place {v : Variable} {block block' : RowBlock α} {e : AffineExpr α}
    {places : List Nat} (h : block.place v e places = .ok block') :
    block'.offset.length = block.offset.length := by
  obtain ⟨rows, -, h⟩ := bind_eq_ok.1 h
  split at h
  case h_1 offset hoffset =>
    cases h
    exact (DenseVector.writeAll?_eq_some hoffset).1
  case h_2 => cases h

omit [Zero α] in
/-- On rows that are there, placing fails only where the expression cannot be read off. -/
theorem fault?_place {v : Variable} {block : RowBlock α} {e : AffineExpr α} {places : List Nat}
    (h : ∀ row ∈ places, row < block.offset.length) :
    fault? (block.place v e places) = fault? (e.rowsOver v) := by
  apply fault?_bind_of_ok
  intro rows _
  have hinside : ∀ w ∈ places.zip rows.offset, w.1 < block.offset.length := fun w hw =>
    h w.1 (List.of_mem_zip hw).1
  obtain ⟨offset, hoffset⟩ := DenseVector.exists_writeAll? hinside
  rw [hoffset]
  rfl

theorem fault?_interleave {v : Variable} {nrows : Nat} {parts : List (AffineExpr α × List Nat)}
    (h : ∀ part ∈ parts, ∀ row ∈ part.2, row < nrows) :
    fault? (interleave v nrows parts) = parts.findSome? fun part => fault? (part.1.rowsOver v) := by
  -- only the height of the block counts, and placing keeps it
  have hfold : ∀ start : RowBlock α, start.offset.length = nrows →
      fault? (parts.foldlM (fun block part => block.place v part.1 part.2) start) =
        parts.findSome? fun part => fault? (part.1.rowsOver v) := by
    induction parts with
    | nil => exact fun _ _ => rfl
    | cons part parts ih =>
      intro start hstart
      have hrest : ∀ p ∈ parts, ∀ row ∈ p.2, row < nrows := fun p hp =>
        h p (List.mem_cons_of_mem _ hp)
      rw [List.foldlM_cons, findSome?_cons_eq_or,
        fault?_bind fun next hnext => ih hrest next ((length_offset_of_place hnext).trans hstart),
        fault?_place (hstart ▸ h part List.mem_cons_self)]
  exact hfold _ (by simp [zeros, DenseVector.zeros])

end RowBlock

/-! ## Constraints -/

namespace Constraint

variable [Zero α] [One α] [Add α] [Mul α] [Neg α]

/-- The rows of cones of several rows are placed part by part. -/
theorem rows_eq_interleave {c : Constraint α} {o : ExpOrder} (h : c.condition.parts o ≠ [])
    (v : Variable) :
    c.rows v o = RowBlock.slack <$> RowBlock.interleave v c.size (c.condition.parts o) := by
  obtain ⟨id, condition⟩ := c
  cases condition with
  | secondOrder t x pos dvd => rfl
  | exponential x y z hy hz => rfl
  | _ => exact absurd rfl h

/-- The rows of a constraint fail where the first of its arguments cannot be read off. -/
theorem fault?_rows {c : Constraint α} (hc : c.kind.isSupported) (v : Variable) {o : ExpOrder}
    (ho : o.IsPermutation) :
    fault? (c.rows v o) = c.condition.args.findSome? fun e => fault? (e.rowsOver v) := by
  have hcones : c.condition.parts o ≠ [] →
      fault? (c.rows v o) =
        (c.condition.parts o).findSome? fun part => fault? (part.1.rowsOver v) := by
    intro hparts
    rw [rows_eq_interleave hparts, fault?_map]
    exact RowBlock.fault?_interleave fun part hpart => (Condition.mem_parts ho hpart).2
  obtain ⟨id, condition⟩ := c
  cases condition with
  | zero e =>
    rw [rows, fault?_map, Condition.args, findSome?_cons_eq_or]
    exact Option.or_none.symm
  | nonpos e =>
    rw [rows, fault?_map, Condition.args, findSome?_cons_eq_or]
    exact Option.or_none.symm
  | secondOrder t x pos dvd => exact hcones (List.cons_ne_nil _ _)
  | exponential x y z hy hz => exact hcones (List.cons_ne_nil _ _)
  | nonneg e => cases hc
  | semidefinite e dim square => cases hc
  | power x y z alpha hy hz inside => cases hc

theorem fault?_stackedRows {cs : List (Constraint α)} (hcs : ∀ c ∈ cs, c.kind.isSupported)
    {v : Variable} (h : ∀ c ∈ cs, ∀ e ∈ c.condition.args, ∀ t ∈ e.blocks.entries, t.1 = v.id)
    {o : ExpOrder} (ho : o.IsPermutation) :
    fault? (stackedRows cs v o) =
      v.widthFault? ((cs.flatMap (·.condition.args)).flatMap AffineExpr.widths) := by
  have hrows : ∀ c ∈ cs, fault? (c.rows v o) =
      v.widthFault? (c.condition.args.flatMap AffineExpr.widths) := by
    intro c hc
    rw [fault?_rows (hcs c hc) v ho, Variable.widthFault?_flatMap]
    exact findSome?_congr fun e he => AffineExpr.fault?_rowsOver (h c hc e he)
  have hstack : fault? (stackedRows cs v o) = fault? (cs.mapM (·.rows v o)) :=
    fault?_bind_of_ok fun _ _ => rfl
  rw [hstack, fault?_mapM, findSome?_congr hrows, List.flatMap_assoc, Variable.widthFault?_flatMap]

end Constraint

end Conic
