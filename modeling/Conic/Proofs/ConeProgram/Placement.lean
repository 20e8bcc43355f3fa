import Conic.Proofs.ConeProgram.Faults
import Conic.Proofs.Expressions.Sums
import Mathlib.Data.Set.Function

/-!
# Where the entries of a constraint go

Every entry of every argument of a constraint has a row of the block, and every row has one entry
(`Condition.bijOn_rowOf`). The row stores what the expression stores at that entry and has its
constant, each with the sign that the kind of cone asks for (`Constraint.Placed`). There are rows if
every argument can be read off in the variable; the first one that cannot says why there are none
(`Constraint.rows_placed`).
-/

namespace Conic

variable {α : Type}

/-! ## Reading off one variable -/

namespace AffineExpr

/-- No other variable occurs, and the matrix of the variable, if there is one, is as wide as it. -/
structure ReadsIn (e : AffineExpr α) (v : Variable) : Prop where
  only : ∀ id ∈ e.coeffs.keys, id = v.id
  width : ∀ m, e.coeffs.find? v.id = some m → m.ncols = v.size

/-- Why an expression cannot be read off in a variable: the smallest other one that occurs, or, if
there is none, the width of the matrix. -/
inductive Refused (e : AffineExpr α) (v : Variable) : Error → Prop where
  | foreign {id : VarId} (mem : id ∈ e.coeffs.keys) (ne : id ≠ v.id)
      (least : ∀ other ∈ e.coeffs.keys, other ≠ v.id → id.index ≤ other.index) :
      Refused e v (.invalidProblem (.foreignVariable id v.id))
  | width {m : SparseMatrix α} (only : ∀ id ∈ e.coeffs.keys, id = v.id)
      (find : e.coeffs.find? v.id = some m) (ne : m.ncols ≠ v.size) :
      Refused e v (.shapeMismatch (.coefficientColumns v.size m.ncols))

theorem pairwise_keys (e : AffineExpr α) : e.coeffs.keys.Pairwise fun i j => i.index < j.index := by
  rw [SortedMap.keys, List.pairwise_map]
  exact e.coeffs.sorted.imp fun hlt => Nat.compare_eq_lt.1 hlt

/-- In an ascending list, the first identifier of a kind is the smallest one. -/
theorem index_le_of_find? {l : List VarId} (h : l.Pairwise fun i j => i.index < j.index)
    {p : VarId → Bool} {id : VarId} (hid : l.find? p = some id) :
    ∀ other ∈ l, p other → id.index ≤ other.index := by
  obtain ⟨-, before, after, rfl, hbefore⟩ := List.find?_eq_some_iff_append.1 hid
  intro other hother hp
  rcases List.mem_append.1 hother with hmem | hmem
  · exact absurd hp (by simpa using hbefore other hmem)
  · rcases List.mem_cons.1 hmem with rfl | hmem
    · exact Nat.le_refl _
    · have hlater := (List.pairwise_append.1 h).2.1
      exact Nat.le_of_lt ((List.pairwise_cons.1 hlater).1 other hmem)

theorem refused_of_rowsOver {e : AffineExpr α} {v : Variable} {fault : Error}
    (h : e.rowsOver v = .error fault) : e.Refused v fault := by
  rw [rowsOver] at h
  split at h
  case h_1 id hid =>
    cases h
    refine .foreign (List.mem_of_find?_eq_some hid) (by simpa using List.find?_some hid) ?_
    simpa using index_le_of_find? e.pairwise_keys hid
  case h_2 hkeys =>
    have honly : ∀ id ∈ e.coeffs.keys, id = v.id := fun id hid => by
      simpa using List.find?_eq_none.1 hkeys id hid
    split at h
    case h_1 => cases h
    case h_2 m hm =>
      split at h
      case isTrue => cases h
      case isFalse hwidth =>
        cases h
        exact .width honly hm hwidth

theorem readsIn_of_rowsOver {e : AffineExpr α} {v : Variable} {b : RowBlock α}
    (h : e.rowsOver v = .ok b) : e.ReadsIn v := by
  obtain ⟨-, ⟨m, hcoeffs, hm, -⟩ | ⟨hcoeffs, -⟩⟩ := rowsOver_eq_ok h
  · refine ⟨fun id hid => ?_, fun m' hm' => ?_⟩
    · rw [hcoeffs] at hid
      exact List.mem_singleton.1 hid
    · rw [hcoeffs, SortedMap.find?_singleton_self] at hm'
      cases hm'
      exact hm
  · refine ⟨fun id hid => ?_, fun m' hm' => ?_⟩
    · rw [hcoeffs] at hid
      cases hid
    · rw [hcoeffs] at hm'
      cases hm'

theorem Refused.not_readsIn {e : AffineExpr α} {v : Variable} {fault : Error}
    (h : e.Refused v fault) :
    ¬ e.ReadsIn v := by
  intro hreads
  cases h with
  | foreign hmem hne => exact hne (hreads.only _ hmem)
  | width _ hm hne => exact hne (hreads.width _ hm)

theorem Refused.unique {e : AffineExpr α} {v : Variable} {fault fault' : Error}
    (h : e.Refused v fault) (h' : e.Refused v fault') : fault = fault' := by
  cases h with
  | @foreign id hmem hne hleast =>
    cases h' with
    | @foreign id' hmem' hne' hleast' =>
      have hindex := Nat.le_antisymm (hleast id' hmem' hne') (hleast' id hmem hne)
      cases id
      cases id'
      cases hindex
      rfl
    | width honly => exact absurd (honly _ hmem) hne
  | width honly hm =>
    cases h' with
    | foreign hmem' hne' => exact absurd (honly _ hmem') hne'
    | width _ hm' =>
      rw [hm] at hm'
      cases hm'
      rfl

theorem rowsOver_eq_error {e : AffineExpr α} {v : Variable} {fault : Error} :
    e.rowsOver v = .error fault ↔ e.Refused v fault := by
  constructor
  · exact refused_of_rowsOver
  · intro h
    cases hrows : e.rowsOver v with
    | ok b => exact absurd (readsIn_of_rowsOver hrows) h.not_readsIn
    | error fault' => rw [(refused_of_rowsOver hrows).unique h]

theorem exists_rowsOver_iff {e : AffineExpr α} {v : Variable} :
    (∃ b, e.rowsOver v = .ok b) ↔ e.ReadsIn v := by
  constructor
  · rintro ⟨b, h⟩
    exact readsIn_of_rowsOver h
  · intro h
    cases hrows : e.rowsOver v with
    | ok b => exact ⟨b, rfl⟩
    | error fault => exact absurd h (refused_of_rowsOver hrows).not_readsIn

/-- The rows store what the expression stores. -/
theorem get?_rowsOver {e : AffineExpr α} {v : Variable} {b : RowBlock α} (h : e.rowsOver v = .ok b)
    (i col : Nat) : b.matrix.get? i col = e.stored? v.id i col := by
  obtain ⟨-, ⟨m, hcoeffs, -, rfl⟩ | ⟨hcoeffs, hmatrix⟩⟩ := rowsOver_eq_ok h
  · rw [stored?, hcoeffs, SortedMap.find?_singleton_self]
    rfl
  · rw [stored?, hcoeffs, hmatrix]
    rfl

end AffineExpr

/-! ## Places -/

/-- When lists have every number below `n` once, a number is found in one list at one place. -/
theorem bijOn_of_flatten_perm {l : List (List Nat)} {n : Nat} (h : l.flatten.Perm (List.range n))
    {f : Nat → Nat → Nat}
    (hf : ∀ {k i : Nat} {rows : List Nat} {row : Nat}, l[k]? = some rows → rows[i]? = some row →
      row = f k i) :
    Set.BijOn (fun p : Nat × Nat => f p.1 p.2) {p | ∃ rows, l[p.1]? = some rows ∧ p.2 < rows.length}
      (Set.Iio n) := by
  obtain ⟨hnodup, hdisjoint⟩ := List.nodup_flatten.1 (h.nodup_iff.2 List.nodup_range)
  have hplace : ∀ {k i : Nat} {rows : List Nat}, l[k]? = some rows → ∀ hi : i < rows.length,
      rows[i] = f k i := fun hk hi => hf hk (List.getElem?_eq_getElem hi)
  have hapart : ∀ {k k' : Nat} {rows rows' : List Nat}, k < k' → l[k]? = some rows →
      l[k']? = some rows' → rows.Disjoint rows' := by
    intro k k' rows rows' hlt hk hk'
    obtain ⟨hkl, rfl⟩ := List.getElem?_eq_some_iff.1 hk
    obtain ⟨hkl', rfl⟩ := List.getElem?_eq_some_iff.1 hk'
    exact List.pairwise_iff_getElem.1 hdisjoint k k' hkl hkl' hlt
  refine ⟨?_, ?_, ?_⟩
  · rintro ⟨k, i⟩ ⟨rows, hk, hi⟩
    show f k i < n
    rw [← hplace hk hi]
    have hmem : rows[i] ∈ l.flatten :=
      List.mem_flatten.2 ⟨rows, List.mem_of_getElem? hk, List.getElem_mem hi⟩
    exact List.mem_range.1 (h.subset hmem)
  · rintro ⟨k, i⟩ ⟨rows, hk, hi⟩ ⟨k', i'⟩ ⟨rows', hk', hi'⟩ heq
    have hrow : rows[i] = rows'[i'] := by
      rw [hplace hk hi, hplace hk' hi']
      exact heq
    have hmem' : rows[i] ∈ rows' := hrow ▸ List.getElem_mem hi'
    rcases Nat.lt_trichotomy k k' with hlt | rfl | hlt
    · exact absurd hmem' (hapart hlt hk hk' (List.getElem_mem hi))
    · rw [hk] at hk'
      cases hk'
      rw [(hnodup rows (List.mem_of_getElem? hk)).getElem_inj_iff.1 hrow]
    · exact absurd (List.getElem_mem hi) (hapart hlt hk' hk hmem')
  · intro row hrow
    obtain ⟨rows, hrows, hmem⟩ := List.mem_flatten.1 (h.mem_iff.2 (List.mem_range.2 hrow))
    obtain ⟨k, hk⟩ := List.mem_iff_getElem?.1 hrows
    obtain ⟨i, hi⟩ := List.mem_iff_getElem?.1 hmem
    exact ⟨(k, i), ⟨rows, hk, (List.getElem?_eq_some_iff.1 hi).1⟩, (hf hk hi).symm⟩

namespace Condition

/-- The row of entry `i` of argument `k` in the block of a condition. -/
def rowOf (o : ExpOrder) (c : Condition α) (k i : Nat) : Nat :=
  match c with
  | secondOrder t x _ _ =>
    let body := x.size / t.size
    if k = 0 then i * (body + 1) else i / body * (body + 1) + 1 + i % body
  | exponential .. => 3 * i + o.rows.getD k 0
  | _ => i

/-- Entry `r` of body `j` comes `r` rows after the bound. -/
theorem rowOf_body {o : ExpOrder} {t x : AffineExpr α} {pos : 0 < t.size} {dvd : t.size ∣ x.size}
    {j r : Nat} (hr : r < x.size / t.size) :
    (secondOrder t x pos dvd).rowOf o 1 (j * (x.size / t.size) + r) =
      j * (x.size / t.size + 1) + 1 + r := by
  have hdiv : (j * (x.size / t.size) + r) / (x.size / t.size) = j := by
    rw [Nat.mul_comm, Nat.mul_add_div (by omega), Nat.div_eq_of_lt hr, Nat.add_zero]
  have hmod : (j * (x.size / t.size) + r) % (x.size / t.size) = r := by
    rw [Nat.mul_comm, Nat.mul_add_mod, Nat.mod_eq_of_lt hr]
  simp [rowOf, hdiv, hmod]

/-- The entries of the arguments, by the number of the argument and by their own. -/
def entries (c : Condition α) : Set (Nat × Nat) := {p | ∃ e, c.args[p.1]? = some e ∧ p.2 < e.size}

theorem map_length_rowLists {o : ExpOrder} {c : Condition α} (hc : c.kind.isSupported) :
    (c.rowLists o).map List.length = c.args.map AffineExpr.size := by
  cases c with
  | zero e => simp [rowLists, size, args]
  | nonpos e => simp [rowLists, size, args]
  | secondOrder t x pos dvd => simp [rowLists, args, Nat.mul_div_cancel' dvd]
  | exponential x y z hy hz => simp [rowLists, args, hy, hz]
  | _ => cases hc

theorem eq_rowOf {o : ExpOrder} {c : Condition α} {k i : Nat} {rows : List Nat} {row : Nat}
    (hk : (c.rowLists o)[k]? = some rows) (hi : rows[i]? = some row) : row = c.rowOf o k i := by
  have hsingle : ∀ {n : Nat}, [List.range n][k]? = some rows → row = i := by
    intro n hk
    obtain rfl := List.mem_singleton.1 (List.mem_of_getElem? hk)
    obtain ⟨hlt, rfl⟩ := List.getElem?_eq_some_iff.1 hi
    exact List.getElem_range ..
  have htriple : ∀ {cones offset : Nat}, rows = tripleRows cones offset → row = 3 * i + offset := by
    rintro cones offset rfl
    have hlt := (List.getElem?_eq_some_iff.1 hi).1
    rw [length_tripleRows] at hlt
    rw [getElem?_tripleRows hlt] at hi
    exact (Option.some.inj hi).symm
  cases c with
  | secondOrder t x pos dvd =>
    match k with
    | 0 =>
      obtain rfl : boundRows t.size (x.size / t.size) = rows := Option.some.inj hk
      have hlt := (List.getElem?_eq_some_iff.1 hi).1
      rw [length_boundRows] at hlt
      rw [getElem?_boundRows hlt] at hi
      exact (Option.some.inj hi).symm
    | 1 =>
      obtain rfl : bodyRows t.size (x.size / t.size) = rows := Option.some.inj hk
      have hlt := (List.getElem?_eq_some_iff.1 hi).1
      rw [length_bodyRows] at hlt
      have hpos : 0 < x.size / t.size := Nat.pos_of_mul_pos_left (Nat.zero_lt_of_lt hlt)
      have hcone : i / (x.size / t.size) < t.size := Nat.div_lt_of_lt_mul (by rwa [Nat.mul_comm])
      have hrest := Nat.mod_lt i hpos
      -- the entry is one of body `i / body`
      rw [← Nat.div_add_mod' i (x.size / t.size)] at hi ⊢
      rw [rowOf_body hrest]
      rw [getElem?_bodyRows hcone hrest] at hi
      exact (Option.some.inj hi).symm
    | k + 2 => cases hk
  | exponential x y z hy hz =>
    match k with
    | 0 => exact htriple (Option.some.inj hk).symm
    | 1 => exact htriple (Option.some.inj hk).symm
    | 2 => exact htriple (Option.some.inj hk).symm
    | k + 3 => cases hk
  | _ => exact hsingle hk

/-- Every row of the block is the row of one entry of one argument. -/
theorem bijOn_rowOf {o : ExpOrder} (ho : o.IsPermutation) {c : Condition α}
    (hc : c.kind.isSupported) :
    Set.BijOn (fun p => c.rowOf o p.1 p.2) c.entries (Set.Iio c.size) := by
  have hentries : c.entries =
      {p | ∃ rows, (c.rowLists o)[p.1]? = some rows ∧ p.2 < rows.length} := by
    ext ⟨k, i⟩
    have hlength : ((c.rowLists o)[k]?).map List.length = (c.args[k]?).map AffineExpr.size := by
      rw [← List.getElem?_map, ← List.getElem?_map, map_length_rowLists hc]
    show (∃ e, c.args[k]? = some e ∧ i < e.size) ↔
      ∃ rows, (c.rowLists o)[k]? = some rows ∧ i < rows.length
    cases hrows : (c.rowLists o)[k]? with
    | none => cases he : c.args[k]? <;> simp_all
    | some rows => cases he : c.args[k]? <;> simp_all
  rw [hentries]
  exact bijOn_of_flatten_perm (flatten_rowLists_perm ho c) eq_rowOf

/-! ## Signs -/

/-- A coefficient of an argument, as the rows have it. -/
def coefficient [One α] [Mul α] [Neg α] : Condition α → α → α
  | secondOrder .., a => a * (-1)
  | exponential .., a => a * (-1)
  | _, a => a

/-- A constant of an argument, as the right-hand side has it. -/
def rightHand [Neg α] : Condition α → α → α
  | secondOrder .., a => a
  | exponential .., a => a
  | _, a => -a

end Condition

/-- Row `i` of `r` is row `rows[i]` of the block, with the signs of a condition. -/
def RowBlock.HoldsAs [One α] [Mul α] [Neg α] (block : RowBlock α) (c : Condition α) (r : RowBlock α)
    (rows : List Nat) : Prop :=
  ∀ i row, rows[i]? = some row →
    (∀ col, block.matrix.get? row col = (r.matrix.get? i col).map c.coefficient) ∧
      block.offset[row]? = r.offset[i]?.map c.rightHand

namespace Constraint

variable [Zero α] [One α] [Add α] [Mul α] [Neg α]

/-- The block has the entries of the arguments, each on a row of its own. -/
structure Placed (c : Constraint α) (v : Variable) (o : ExpOrder) (block : RowBlock α) : Prop where
  fits : block.Fits c.size v.size
  bijOn : Set.BijOn (fun p => c.condition.rowOf o p.1 p.2) c.condition.entries (Set.Iio c.size)
  stored : ∀ k e, c.condition.args[k]? = some e → ∀ i < e.size, ∀ col,
    block.matrix.get? (c.condition.rowOf o k i) col =
      (e.stored? v.id i col).map c.condition.coefficient
  offset : ∀ k e, c.condition.args[k]? = some e → ∀ i < e.size,
    block.offset[c.condition.rowOf o k i]? = e.constant[i]?.map c.condition.rightHand

/-- The rows of cones of several rows: each argument is read off and moved to its places. -/
theorem holds_of_parts {c : Constraint α} {v : Variable} {o : ExpOrder} (ho : o.IsPermutation)
    {block : RowBlock α} (hparts : c.condition.parts o ≠ []) (h : c.rows v o = .ok block) :
    ∃ inner, block = RowBlock.slack inner ∧ ∀ (k : Nat) (e : AffineExpr α) (rows : List Nat),
      c.condition.args[k]? = some e → (c.condition.rowLists o)[k]? = some rows →
        ∃ r, e.rowsOver v = .ok r ∧ inner.Holds r rows := by
  obtain ⟨hzip, hflat⟩ := Condition.parts_eq_zip hparts
  rw [rows_eq_interleave hparts] at h
  obtain ⟨inner, hinner, rfl⟩ := map_eq_ok.1 h
  have hnodup : ((c.condition.parts o).flatMap Prod.snd).Nodup := by
    rw [hflat]
    exact (Condition.flatten_rowLists_perm ho c.condition).nodup_iff.2 List.nodup_range
  obtain ⟨-, hall⟩ := RowBlock.interleave_eq_ok hinner hnodup fun part hpart =>
    (Condition.mem_parts ho hpart).1
  refine ⟨inner, rfl, fun k e rows he hrows => hall (e, rows) ?_⟩
  rw [hzip]
  exact List.mem_of_getElem? (List.getElem?_zip_eq_some.2 ⟨he, hrows⟩)

/-- Each argument is read off, and its rows get their signs and their places. -/
theorem rows_eq_ok {c : Constraint α} (hc : c.kind.isSupported) {v : Variable} {o : ExpOrder}
    (ho : o.IsPermutation) {block : RowBlock α} (h : c.rows v o = .ok block) {k : Nat}
    {e : AffineExpr α} (he : c.condition.args[k]? = some e) {rows : List Nat}
    (hrows : (c.condition.rowLists o)[k]? = some rows) :
    ∃ r, e.rowsOver v = .ok r ∧ block.HoldsAs c.condition r rows := by
  have hcones : c.condition.parts o ≠ [] → c.condition.coefficient = (· * (-1)) →
      c.condition.rightHand = (fun a => a) →
      ∃ r, e.rowsOver v = .ok r ∧ block.HoldsAs c.condition r rows := by
    intro hparts hcoefficient hright
    obtain ⟨inner, rfl, hall⟩ := holds_of_parts ho hparts h
    obtain ⟨r, hr, hholds⟩ := hall k e rows he hrows
    refine ⟨r, hr, fun i row hrow => ⟨fun col => ?_, ?_⟩⟩
    · rw [hcoefficient, ← (hholds i row hrow).1 col]
      exact SparseMatrix.get?_mapValues ..
    · rw [hright, Option.map_id']
      exact (hholds i row hrow).2
  have hcomparison : ∀ d : AffineExpr α, c.condition.args = [d] →
      c.condition.rowLists o = [List.range c.size] → c.condition.coefficient = (fun a => a) →
      c.condition.rightHand = (- ·) → RowBlock.comparison <$> d.rowsOver v = .ok block →
      ∃ r, e.rowsOver v = .ok r ∧ block.HoldsAs c.condition r rows := by
    intro d hargs hlists hcoefficient hright hd
    obtain ⟨r, hr, rfl⟩ := map_eq_ok.1 hd
    rw [hargs] at he
    obtain rfl := List.mem_singleton.1 (List.mem_of_getElem? he)
    rw [hlists] at hrows
    obtain rfl := List.mem_singleton.1 (List.mem_of_getElem? hrows)
    refine ⟨r, hr, fun i row hrow => ?_⟩
    obtain ⟨hlt, rfl⟩ := List.getElem?_eq_some_iff.1 hrow
    rw [List.getElem_range, hcoefficient, hright]
    exact ⟨fun col => (Option.map_id' ..).symm, List.getElem?_map ..⟩
  obtain ⟨id, condition⟩ := c
  cases condition with
  | zero d => exact hcomparison d rfl rfl rfl rfl h
  | nonpos d => exact hcomparison d rfl rfl rfl rfl h
  | secondOrder t x pos dvd => exact hcones (List.cons_ne_nil _ _) rfl rfl
  | exponential x y z hy hz => exact hcones (List.cons_ne_nil _ _) rfl rfl
  | _ => cases hc

theorem placed_of_rows {c : Constraint α} (hc : c.kind.isSupported) {v : Variable} {o : ExpOrder}
    (ho : o.IsPermutation) {block : RowBlock α} (h : c.rows v o = .ok block) :
    c.Placed v o block := by
  have hplace : ∀ k e, c.condition.args[k]? = some e → ∀ i < e.size,
      (∀ col, block.matrix.get? (c.condition.rowOf o k i) col =
        (e.stored? v.id i col).map c.condition.coefficient) ∧
      block.offset[c.condition.rowOf o k i]? = e.constant[i]?.map c.condition.rightHand := by
    intro k e he i hi
    have hlengths : ((c.condition.rowLists o)[k]?).map List.length = some e.size := by
      rw [← List.getElem?_map, Condition.map_length_rowLists hc, List.getElem?_map, he]
      rfl
    obtain ⟨rows, hrows, hlength⟩ := Option.map_eq_some_iff.1 hlengths
    obtain ⟨r, hr, hall⟩ := rows_eq_ok hc ho h he hrows
    have hi' : i < rows.length := by omega
    have hrow := Condition.eq_rowOf hrows (List.getElem?_eq_getElem hi')
    obtain ⟨hmatrix, hoffset⟩ := hall i _ (List.getElem?_eq_getElem hi')
    rw [← hrow, ← (AffineExpr.rowsOver_eq_ok hr).1]
    refine ⟨fun col => ?_, hoffset⟩
    rw [hmatrix, AffineExpr.get?_rowsOver hr]
  exact ⟨rows_fits ho h, Condition.bijOn_rowOf ho hc, fun k e he i hi => (hplace k e he i hi).1,
    fun k e he i hi => (hplace k e he i hi).2⟩

/-- The rows of a constraint of a supported kind, over any variable and in any order that is a
permutation. There are rows if and only if every argument can be read off in the variable, and then
every entry of every argument has a row of its own, which stores its coefficients and its constant,
and there is no other row. Otherwise the first argument that cannot be read off says why. -/
theorem rows_placed {c : Constraint α} (hc : c.kind.isSupported) (v : Variable) {o : ExpOrder}
    (ho : o.IsPermutation) :
    ((∃ block, c.rows v o = .ok block) ↔ ∀ e ∈ c.condition.args, e.ReadsIn v) ∧
    (∀ fault, c.rows v o = .error fault ↔ ∃ before e after,
      c.condition.args = before ++ e :: after ∧
      (∀ d ∈ before, d.ReadsIn v) ∧ e.Refused v fault) ∧
    ∀ block, c.rows v o = .ok block → c.Placed v o block := by
  have hreads : ∀ e : AffineExpr α, fault? (e.rowsOver v) = none ↔ e.ReadsIn v := fun e => by
    rw [fault?_eq_none, AffineExpr.exists_rowsOver_iff]
  refine ⟨?_, fun fault => ?_, fun block h => placed_of_rows hc ho h⟩
  · rw [← fault?_eq_none, fault?_rows hc v ho, List.findSome?_eq_none_iff]
    simp only [hreads]
  · rw [← fault?_eq_some, fault?_rows hc v ho, List.findSome?_eq_some_iff]
    constructor
    · rintro ⟨before, e, after, hargs, hfault, hbefore⟩
      exact ⟨before, e, after, hargs, fun d hd => (hreads d).1 (hbefore d hd),
        AffineExpr.rowsOver_eq_error.1 (fault?_eq_some.1 hfault)⟩
    · rintro ⟨before, e, after, hargs, hbefore, hfault⟩
      exact ⟨before, e, after, hargs, fault?_eq_some.2 (AffineExpr.rowsOver_eq_error.2 hfault),
        fun d hd => (hreads d).2 (hbefore d hd)⟩

theorem cyclicOrder_placed :
    let v : Variable := ⟨⟨0⟩, 2, none⟩
    let w : Variable := ⟨⟨1⟩, 2, none⟩
    let o : ExpOrder := ⟨1, 2, 0⟩
    let x : AffineExpr Int := .ofVariable v
    let c : Constraint Int :=
      ⟨⟨2⟩, .exponential x ((x.scale 3).plus 7) (.ofConstant [1, 2]) rfl rfl⟩
    c.kind.isSupported ∧ o.IsPermutation ∧
      (∃ block, c.rows v o = .ok block ∧ c.Placed v o block ∧ block.offset = [1, 0, 7, 2, 0, 7] ∧
        block.matrix.get? 5 1 = some (-3)) ∧
      c.rows w o = .error (.invalidProblem (.foreignVariable v.id w.id)) := by
  intro v w o x c
  have hc : c.kind.isSupported := rfl
  have ho : o.IsPermutation := by decide
  refine ⟨hc, ho, ⟨_, rfl, (rows_placed hc v ho).2.2 _ rfl, by decide +kernel, by decide +kernel⟩,
    ?_⟩
  refine ((rows_placed hc w ho).2.1 _).2 ⟨[], x, _, rfl, by simp, .foreign ?_ (by decide) ?_⟩
  · exact List.mem_singleton_self _
  · intro other hother _
    rw [List.mem_singleton.1 hother]

end Constraint

end Conic
