import Conic.Proofs.Expressions.Terms

/-!
# Sums

What a sum stores. Where one operand has a single entry, that entry counts for all of them
(`sourceRow`), and a sum should store at each place what both operands store there, added where both
do (`IsSum`). But a matrix of the first operand decides how many columns a variable has, and what
the second one stores beyond them is lost. That is all that is ever lost (`isSum_iff`), and where
each variable has one width there is nothing to lose. Sums are then commutative and associative,
whichever operands are repeated, and fail together.
-/

namespace Conic

namespace AffineExpr

variable {α : Type}

/-! ## What an expression stores -/

/-- The stored coefficient of a column of a variable in an entry, if there is one. -/
def stored? (e : AffineExpr α) (id : VarId) (row col : Nat) : Option α :=
  (e.coeffs.find? id).bind (·.get? row col)

/-- The entry that counts for entry `row` of a sum. -/
def sourceRow (e : AffineExpr α) (row : Nat) : Nat := if e.size = 1 then 0 else row

/-- Whether the matrix of a variable has the column, or there is no matrix yet. -/
def hasRoom (e : AffineExpr α) (id : VarId) (col : Nat) : Bool := (e.blocks.find? id).all (col < ·)

theorem find?_blocks (e : AffineExpr α) (id : VarId) :
    e.blocks.find? id = (e.coeffs.find? id).map SparseMatrix.ncols := SortedMap.find?_mapValues ..

theorem nrows_eq {e : AffineExpr α} {id : VarId} {m : SparseMatrix α}
    (h : e.coeffs.find? id = some m) :
    m.nrows = e.size := e.rows_eq m (List.mem_map_of_mem (SortedMap.find?_eq_some_iff.1 h))

theorem stored?_eq_none_of_hasRoom {e : AffineExpr α} {id : VarId} {col : Nat}
    (h : e.hasRoom id col = false) (row : Nat) : e.stored? id row col = none := by
  rw [hasRoom, find?_blocks] at h
  rw [stored?]
  cases hm : e.coeffs.find? id with
  | none => rfl
  | some m => exact SparseMatrix.get?_eq_none (.inr (by simpa [hm] using h))

/-- Constants, blocks and stored coefficients determine an expression. -/
theorem ext_stored? [Zero α] {e e' : AffineExpr α} (hsize : e.size = e'.size)
    (hentry : ∀ row < e.size, e.constant.entry row = e'.constant.entry row)
    (hblocks : ∀ id, e.blocks.find? id = e'.blocks.find? id)
    (hstored : ∀ row < e.size, ∀ id col, e.stored? id row col = e'.stored? id row col) :
    e = e' := by
  have hconstant : e.constant = e'.constant := by
    rw [← DenseVector.map_entry_range e.constant, ← DenseVector.map_entry_range e'.constant]
    show (List.range e.size).map _ = (List.range e'.size).map _
    rw [← hsize]
    exact List.map_congr_left fun row hrow => hentry row (List.mem_range.1 hrow)
  have hcoeffs : e.coeffs = e'.coeffs := by
    refine SortedMap.ext_find? fun id => ?_
    have hwidth := hblocks id
    rw [find?_blocks, find?_blocks] at hwidth
    cases hm : e.coeffs.find? id with
    | none => cases hm' : e'.coeffs.find? id <;> simp_all
    | some m =>
      cases hm' : e'.coeffs.find? id with
      | none => simp [hm, hm'] at hwidth
      | some m' =>
        have hrows : m.nrows = m'.nrows := by rw [nrows_eq hm, nrows_eq hm', hsize]
        have hcols : m.ncols = m'.ncols := by simpa [hm, hm'] using hwidth
        refine congrArg some (SparseMatrix.ext_get? hrows hcols fun row col => ?_)
        by_cases hrow : row < e.size
        · simpa [stored?, hm, hm'] using hstored row hrow id col
        · rw [SparseMatrix.get?_eq_none (.inl (by rw [nrows_eq hm]; omega)),
            SparseMatrix.get?_eq_none (.inl (by rw [← hrows, nrows_eq hm]; omega))]
  obtain ⟨coeffs, constant, hrows⟩ := e
  obtain ⟨coeffs', constant', hrows'⟩ := e'
  obtain rfl : coeffs = coeffs' := hcoeffs
  obtain rfl : constant = constant' := hconstant
  rfl

/-! ## What a sum stores -/

theorem stored?_join [Add α] {a b : AffineExpr α} (h : a.size = b.size) (id : VarId)
    (row col : Nat) : (a.join b h).stored? id row col = (a.stored? id row col).merge (· + ·)
      (if a.hasRoom id col then b.stored? id row col else none) := by
  show ((a.coeffs.mergeWith SparseMatrix.add b.coeffs).find? id).bind _ = _
  rw [SortedMap.find?_mergeWith, stored?, stored?, hasRoom, find?_blocks]
  cases hm : a.coeffs.find? id with
  | none => simp
  | some m =>
    cases hn : b.coeffs.find? id with
    | none => simp
    | some n =>
      have hrows : m.nrows = n.nrows := by rw [nrows_eq hm, nrows_eq hn, h]
      show (m.add n).get? row col = (m.get? row col).merge _
        (if decide (col < m.ncols) = true then n.get? row col else none)
      rw [SparseMatrix.get?_add_eq]
      by_cases hcol : col < m.ncols
      · by_cases hrow : row < m.nrows
        · simp [hrow, hcol]
        · have hm : m.get? row col = none := SparseMatrix.get?_eq_none (.inl (by omega))
          have hn : n.get? row col = none := SparseMatrix.get?_eq_none (.inl (by omega))
          simp [hrow, hm, hn]
      · have hm : m.get? row col = none := SparseMatrix.get?_eq_none (.inr (by omega))
        simp [hcol, hm]

/-- The sizes `m` and `n` add up to size `k`: they are equal, unless one operand has a single
entry. -/
def SizesAdd (m n k : Nat) : Prop := (m = n ∨ m = 1 ∨ n = 1) ∧ k = if m = 1 then n else m

theorem SizesAdd.symm {m n k : Nat} (h : SizesAdd m n k) : SizesAdd n m k := by
  rw [SizesAdd] at h ⊢
  split_ifs at h ⊢ <;> omega

theorem SizesAdd.assoc {m n p s k : Nat} (hs : SizesAdd m n s) (hk : SizesAdd s p k) :
    ∃ t, SizesAdd n p t ∧ SizesAdd m t k := by
  rw [SizesAdd] at hs hk
  refine ⟨if n = 1 then p else n, ⟨?_, rfl⟩, ?_⟩
  · split_ifs at hs <;> omega
  · by_cases hn : n = 1
    · rw [if_pos hn, SizesAdd]
      split_ifs at hs hk ⊢ <;> omega
    · rw [if_neg hn, SizesAdd]
      split_ifs at hs hk ⊢ <;> omega

theorem SizesAdd.unique {m n k l : Nat} (h : SizesAdd m n k) (h' : SizesAdd m n l) : k = l :=
  h.2.trans h'.2.symm

/-- The entry of an operand that counts is one of its entries. -/
theorem SizesAdd.sourceRow_lt {e : AffineExpr α} {n k row : Nat} (h : SizesAdd e.size n k)
    (hrow : row < k) : e.sourceRow row < e.size := by
  rw [SizesAdd] at h
  rw [sourceRow]
  split_ifs at h ⊢ <;> omega

/-- Only operands of one entry have a sum of one entry. -/
theorem SizesAdd.sourceRow_sourceRow {e s : AffineExpr α} {n : Nat} (h : SizesAdd e.size n s.size)
    (row : Nat) : e.sourceRow (s.sourceRow row) = e.sourceRow row := by
  rw [SizesAdd] at h
  simp only [sourceRow]
  split_ifs at h ⊢ <;> omega

theorem sourceRow_of_lt {e : AffineExpr α} {row : Nat} (h : row < e.size) :
    e.sourceRow row = row := by
  rw [sourceRow]
  split
  · omega
  · rfl

section Sums

variable [Zero α] [Add α]

/-- An operand as it takes part in a sum of `n` entries: every entry is the one that counts for
it. -/
structure Spreads (e : AffineExpr α) (n : Nat) (e' : AffineExpr α) : Prop where
  size_eq : e'.size = n
  blocks_eq : e'.blocks = e.blocks
  entry_eq : ∀ row < n, e'.constant.entry row = e.constant.entry (e.sourceRow row)
  stored?_eq : ∀ row < n, ∀ id col, e'.stored? id row col = e.stored? id (e.sourceRow row) col

omit [Add α] in
theorem spreads_self (e : AffineExpr α) : e.Spreads e.size e where
  size_eq := rfl
  blocks_eq := rfl
  entry_eq := fun row hrow => by rw [sourceRow_of_lt hrow]
  stored?_eq := fun row hrow id col => by rw [sourceRow_of_lt hrow]

theorem spreads_broadcast {e : AffineExpr α} (h : e.size = 1) (n : Nat) :
    e.Spreads n (e.broadcast n) where
  size_eq := size_broadcast e n
  blocks_eq := blocks_pick ..
  entry_eq := fun row hrow => by
    show DenseVector.entry ((List.replicate n 0).map e.constant.entry) row = _
    rw [DenseVector.entry_of_lt (by simpa using hrow), sourceRow, if_pos h]
    simp
  stored?_eq := fun row hrow id col => by
    show ((e.coeffs.mapValues (·.selectRows (List.replicate n 0))).find? id).bind _ = _
    rw [SortedMap.find?_mapValues, stored?, sourceRow, if_pos h]
    cases e.coeffs.find? id with
    | none => rfl
    | some m => simp [SparseMatrix.get?_selectRows, hrow]

theorem add_eq_error {a b : AffineExpr α} {fault : Error} : a.add b = .error fault ↔
    ¬ (a.size = b.size ∨ a.size = 1 ∨ b.size = 1) ∧
      fault = .shapeMismatch (.sizes a.size b.size) := by
  rw [add]
  by_cases hsize : a.size = b.size
  · simp [hsize]
  · rw [dif_neg hsize]
    by_cases hleft : a.size = 1
    · simp [hleft]
    · by_cases hright : b.size = 1
      · simp [hleft, hright]
      · simp [hsize, hleft, hright, eq_comm]

/-- The operands are joined after they were brought to one size. -/
theorem exists_spreads_of_add {a b e : AffineExpr α} (h : a.add b = .ok e) :
    ∃ a' b' hsize, a.Spreads e.size a' ∧ b.Spreads e.size b' ∧ e = join a' b' hsize := by
  rcases add_eq_ok h with ⟨hsize, rfl⟩ | ⟨hleft, hsize, rfl⟩ | ⟨hright, hsize, rfl⟩
  · refine ⟨a, b, hsize, ?_, ?_, rfl⟩
    · rw [size_join, ← hsize]
      exact a.spreads_self
    · rw [size_join]
      exact b.spreads_self
  · refine ⟨_, b, hsize, ?_, ?_, rfl⟩
    · rw [size_join]
      exact spreads_broadcast hleft _
    · rw [size_join]
      exact b.spreads_self
  · refine ⟨a, _, hsize, ?_, ?_, rfl⟩
    · rw [size_join, size_broadcast]
      exact a.spreads_self
    · rw [size_join, size_broadcast]
      exact spreads_broadcast hright _

/-- An expression has the size, the blocks and the constants of a sum of two others. -/
structure Combines (a b e : AffineExpr α) : Prop where
  sizes : SizesAdd a.size b.size e.size
  find?_blocks : ∀ id, e.blocks.find? id = (a.blocks.find? id).or (b.blocks.find? id)
  entry_eq : ∀ row < e.size,
    e.constant.entry row = a.constant.entry (a.sourceRow row) + b.constant.entry (b.sourceRow row)

/-- An expression is the sum of two others: it stores what either of them stores, added where both
do. -/
structure IsSum (a b e : AffineExpr α) : Prop extends Combines a b e where
  stored?_eq : ∀ row < e.size, ∀ id col, e.stored? id row col =
    (a.stored? id (a.sourceRow row) col).merge (· + ·) (b.stored? id (b.sourceRow row) col)

theorem combines_of_add {a b e : AffineExpr α} (h : a.add b = .ok e) : Combines a b e := by
  have hchecked := shapeChecked_add a b
  obtain ⟨a', b', hsize, ha, hb, he⟩ := exists_spreads_of_add h
  refine ⟨⟨hchecked.exists_iff.1 ⟨e, h⟩, hchecked.size_eq h⟩, fun id => ?_, fun row hrow => ?_⟩
  · rw [he, blocks_join, SortedMap.find?_mergeWith, ha.blocks_eq, hb.blocks_eq]
    cases a.blocks.find? id <;> cases b.blocks.find? id <;> rfl
  · have hleft : row < a'.size := by rwa [ha.size_eq]
    have hright : row < b'.size := by rwa [hb.size_eq]
    rw [← ha.entry_eq row hrow, ← hb.entry_eq row hrow, ← DenseVector.entry_add_of_lt hleft hright,
      he]
    rfl

/-- A sum stores what the first operand stores, and what the second one stores where there is
room. -/
theorem stored?_of_add {a b e : AffineExpr α} (h : a.add b = .ok e) {row : Nat}
    (hrow : row < e.size) (id : VarId) (col : Nat) : e.stored? id row col =
      (a.stored? id (a.sourceRow row) col).merge (· + ·)
        (if a.hasRoom id col then b.stored? id (b.sourceRow row) col else none) := by
  obtain ⟨a', b', hsize, ha, hb, he⟩ := exists_spreads_of_add h
  have hroom : a'.hasRoom id col = a.hasRoom id col := by rw [hasRoom, hasRoom, ha.blocks_eq]
  rw [← ha.stored?_eq row hrow, ← hb.stored?_eq row hrow, ← hroom, ← stored?_join hsize, ← he]

/-- Nothing is lost if and only if there is room for all that the second operand stores. -/
theorem isSum_iff {a b e : AffineExpr α} (h : a.add b = .ok e) : IsSum a b e ↔
    ∀ row < e.size, ∀ id col, b.stored? id (b.sourceRow row) col ≠ none → a.hasRoom id col := by
  constructor
  · intro hsum row hrow id col hstored
    by_contra hroom
    have hleft := stored?_eq_none_of_hasRoom (by simpa using hroom) (a.sourceRow row)
    have heq := hsum.stored?_eq row hrow id col
    rw [stored?_of_add h hrow, if_neg hroom, hleft] at heq
    exact hstored (by simpa using heq.symm)
  · intro hall
    refine ⟨combines_of_add h, fun row hrow id col => ?_⟩
    rw [stored?_of_add h hrow]
    split
    case isTrue => rfl
    case isFalse hroom =>
      have hnone : b.stored? id (b.sourceRow row) col = none := by
        by_contra hstored
        exact hroom (hall row hrow id col hstored)
      rw [hnone]

/-- What a sum does with any two operands. It refuses two sizes, unless one of them is one, and
names both. Otherwise its size, its blocks and its constants are those of the sum, and so is what it
stores, except that coefficients of the second operand count only where the matrix of the first one
has the column, or there is none. So it is the sum of both if and only if the second one stores
nothing beyond. -/
theorem add_classified (a b : AffineExpr α) :
    (∀ fault, a.add b = .error fault ↔ ¬ (a.size = b.size ∨ a.size = 1 ∨ b.size = 1) ∧
      fault = .shapeMismatch (.sizes a.size b.size)) ∧
    ∀ e, a.add b = .ok e → Combines a b e ∧
      (∀ row < e.size, ∀ id col, e.stored? id row col =
        (a.stored? id (a.sourceRow row) col).merge (· + ·)
          (if a.hasRoom id col then b.stored? id (b.sourceRow row) col else none)) ∧
      (IsSum a b e ↔
        ∀ row < e.size, ∀ id col, b.stored? id (b.sourceRow row) col ≠ none →
          a.hasRoom id col) := by
  constructor
  · intro fault
    exact add_eq_error
  · intro e h
    refine ⟨combines_of_add h, ?_, isSum_iff h⟩
    intro row hrow id col
    exact stored?_of_add h hrow id col

end Sums

theorem sum_repeated_stores :
    let x : Variable := ⟨⟨0⟩, 3, none⟩
    let a : AffineExpr Int := sum (.ofVariable x)
    let b : AffineExpr Int := .ofVariable x
    (∃ e, a.add b = .ok e ∧ Combines a b e ∧ e.size = 3 ∧ e.stored? x.id 2 2 = some 2 ∧
      e.stored? x.id 2 0 = some 1) ∧
    b.add (.ofConstant [1, 2]) = .error (.shapeMismatch (.sizes 3 2)) := by
  intro x a b
  obtain ⟨hcombines, hstored, -⟩ := (add_classified a b).2 _ rfl
  refine ⟨⟨_, rfl, hcombines, hcombines.sizes.2, ?_, ?_⟩, ?_⟩
  · rw [hstored 2 (by decide +kernel)]
    decide +kernel
  · rw [hstored 2 (by decide +kernel)]
    decide +kernel
  · exact ((add_classified b (.ofConstant [1, 2])).1 _).2 ⟨by decide +kernel, rfl⟩

/-- Copies `x` and `w` of one variable say one entry and two. The coefficient of the second one is
lost, unless its expression comes first. -/
theorem sum_narrow_loses :
    let x : Variable := ⟨⟨0⟩, 1, none⟩
    let w : Variable := ⟨⟨0⟩, 2, none⟩
    let a : AffineExpr Int := .ofVariable x
    let b : AffineExpr Int := sum (.ofVariable w)
    b.stored? x.id 0 1 = some 1 ∧
      (∃ e, a.add b = .ok e ∧ e.stored? x.id 0 1 = none ∧ ¬ IsSum a b e) ∧
      ∃ e, b.add a = .ok e ∧ e.stored? x.id 0 1 = some 1 := by
  intro x w a b
  refine ⟨by decide +kernel, ⟨_, rfl, by decide +kernel, fun hsum => ?_⟩, _, rfl, by decide +kernel⟩
  have hlost := hsum.stored?_eq 0 Nat.one_pos x.id 1
  revert hlost
  decide +kernel

/-! ## Sums over one table of widths -/

/-- Every block is as wide as a table says. -/
def HasWidths (e : AffineExpr α) (width : VarId → Nat) : Prop :=
  ∀ id n, e.blocks.find? id = some n → n = width id

theorem HasBlocks.hasWidths {e : AffineExpr α} {width : VarId → Nat} {ids : List VarId}
    (h : e.HasBlocks width ids) : e.HasWidths width := by
  intro id n hn
  rw [h id] at hn
  split at hn
  case isTrue => exact (Option.some.inj hn).symm
  case isFalse => cases hn

/-- An operand stores nothing beyond the other one's matrices. -/
theorem HasWidths.hasRoom {width : VarId → Nat} {a b : AffineExpr α} (ha : a.HasWidths width)
    (hb : b.HasWidths width) {id : VarId} {row col : Nat} (h : b.stored? id row col ≠ none) :
    a.hasRoom id col := by
  have hroom : b.hasRoom id col := by
    by_contra hno
    exact h (stored?_eq_none_of_hasRoom (by simpa using hno) row)
  rw [AffineExpr.hasRoom] at hroom ⊢
  cases hm : a.blocks.find? id with
  | none => rfl
  | some m =>
    cases hn : b.blocks.find? id with
    | none =>
      rw [AffineExpr.find?_blocks, Option.map_eq_none_iff] at hn
      simp [stored?, hn] at h
    | some n => simpa [hn, hb id n hn, ha id m hm] using hroom

theorem Combines.hasWidths [Zero α] [Add α] {width : VarId → Nat} {a b e : AffineExpr α}
    (h : Combines a b e) (ha : a.HasWidths width) (hb : b.HasWidths width) : e.HasWidths width := by
  intro id n hn
  rw [h.find?_blocks] at hn
  rcases Option.or_eq_some_iff.1 hn with hn | ⟨-, hn⟩
  · exact ha id n hn
  · exact hb id n hn

theorem IsSum.unique [Zero α] [Add α] {a b e e' : AffineExpr α} (h : IsSum a b e)
    (h' : IsSum a b e') :
    e = e' := by
  have hsize : e.size = e'.size := h.sizes.unique h'.sizes
  refine ext_stored? hsize (fun row hrow => ?_) (fun id => ?_) (fun row hrow id col => ?_)
  · rw [h.entry_eq row hrow, h'.entry_eq row (hsize ▸ hrow)]
  · rw [h.find?_blocks, h'.find?_blocks]
  · rw [h.stored?_eq row hrow, h'.stored?_eq row (hsize ▸ hrow)]

/-- With one width for each variable nothing is lost, and adding is finding the sum. -/
theorem add_eq_ok_iff [Zero α] [Add α] {width : VarId → Nat} {a b e : AffineExpr α}
    (ha : a.HasWidths width) (hb : b.HasWidths width) : a.add b = .ok e ↔ IsSum a b e := by
  have hsum : ∀ {e : AffineExpr α}, a.add b = .ok e → IsSum a b e := fun h =>
    (isSum_iff h).2 fun _ _ _ _ hstored => ha.hasRoom hb hstored
  constructor
  · exact hsum
  · intro h
    obtain ⟨e', he'⟩ := (shapeChecked_add a b).exists_iff.2 h.sizes.1
    rw [he', (hsum he').unique h]

section Laws

variable [AddCommMonoid α]

theorem IsSum.symm {width : VarId → Nat} {a b e : AffineExpr α} (ha : a.HasWidths width)
    (hb : b.HasWidths width) (h : IsSum a b e) : IsSum b a e where
  sizes := h.sizes.symm
  find?_blocks := fun id => by
    rw [h.find?_blocks]
    cases hm : a.blocks.find? id with
    | none => simp
    | some m =>
      cases hn : b.blocks.find? id with
      | none => rfl
      | some n => simp [ha id m hm, hb id n hn]
  entry_eq := fun row hrow => by rw [h.entry_eq row hrow, add_comm]
  stored?_eq := fun row hrow id col => by
    rw [h.stored?_eq row hrow]
    exact Std.Commutative.comm ..

theorem IsSum.assoc {a b c s t e : AffineExpr α} (hs : IsSum a b s) (he : IsSum s c e)
    (ht : IsSum b c t) : IsSum a t e := by
  have hsizes : SizesAdd a.size t.size e.size := by
    obtain ⟨n, hn, hsizes⟩ := hs.sizes.assoc he.sizes
    rwa [ht.sizes.unique hn]
  refine ⟨⟨hsizes, fun id => ?_, fun row hrow => ?_⟩, fun row hrow id col => ?_⟩
  · rw [he.find?_blocks, hs.find?_blocks, ht.find?_blocks, Option.or_assoc]
  · have hrs := he.sizes.sourceRow_lt hrow
    have hrt := hsizes.symm.sourceRow_lt hrow
    rw [he.entry_eq row hrow, hs.entry_eq _ hrs, ht.entry_eq _ hrt, hs.sizes.sourceRow_sourceRow,
      hs.sizes.symm.sourceRow_sourceRow, ht.sizes.sourceRow_sourceRow,
      ht.sizes.symm.sourceRow_sourceRow, add_assoc]
  · have hrs := he.sizes.sourceRow_lt hrow
    have hrt := hsizes.symm.sourceRow_lt hrow
    rw [he.stored?_eq row hrow, hs.stored?_eq _ hrs, ht.stored?_eq _ hrt,
      hs.sizes.sourceRow_sourceRow, hs.sizes.symm.sourceRow_sourceRow, ht.sizes.sourceRow_sourceRow,
      ht.sizes.symm.sourceRow_sourceRow]
    exact Std.Associative.assoc ..

theorem add_eq_ok_comm {width : VarId → Nat} {a b e : AffineExpr α} (ha : a.HasWidths width)
    (hb : b.HasWidths width) : a.add b = .ok e ↔ b.add a = .ok e := by
  rw [add_eq_ok_iff ha hb, add_eq_ok_iff hb ha]
  exact ⟨IsSum.symm ha hb, IsSum.symm hb ha⟩

theorem exists_add_eq_ok {width : VarId → Nat} {a b c s e : AffineExpr α} (ha : a.HasWidths width)
    (hb : b.HasWidths width) (hc : c.HasWidths width) (hs : a.add b = .ok s)
    (he : s.add c = .ok e) :
    ∃ t, b.add c = .ok t ∧ a.add t = .ok e := by
  have hsum := (add_eq_ok_iff ha hb).1 hs
  have hsum' := (add_eq_ok_iff (hsum.hasWidths ha hb) hc).1 he
  obtain ⟨n, hsizes, -⟩ := hsum.sizes.assoc hsum'.sizes
  obtain ⟨t, ht⟩ := (shapeChecked_add b c).exists_iff.2 hsizes.1
  have hsum'' := (add_eq_ok_iff hb hc).1 ht
  exact ⟨t, ht, (add_eq_ok_iff ha (hsum''.hasWidths hb hc)).2 (hsum.assoc hsum' hsum'')⟩

end Laws

/-- An expression that the operations put together from variables with the widths of a table. -/
def BuiltOver [Zero α] [One α] [Add α] [Mul α] [Neg α] [BEq α] (e : AffineExpr α)
    (width : VarId → Nat) : Prop := ∃ t : Term α, t.Over width ∧ t.build = .ok e

theorem BuiltOver.hasWidths [Zero α] [One α] [Add α] [Mul α] [Neg α] [BEq α] {e : AffineExpr α}
    {width : VarId → Nat} (h : e.BuiltOver width) : e.HasWidths width := by
  obtain ⟨t, ht, hbuild⟩ := h
  exact (Term.hasBlocks_of_build ht hbuild).hasWidths

/-- Sums are commutative and associative where each variable has one width: one order of the
operands and one bracketing succeed with an expression if and only if the others succeed with the
same one. -/
theorem add_comm_assoc [CommRing α] [BEq α] {width : VarId → Nat} {a b c : AffineExpr α}
    (ha : a.BuiltOver width) (hb : b.BuiltOver width) (hc : c.BuiltOver width) :
    (∀ e, a.add b = .ok e ↔ b.add a = .ok e) ∧
      ∀ e, (a.add b >>= (·.add c)) = .ok e ↔ (b.add c >>= a.add) = .ok e := by
  have ha := ha.hasWidths
  have hb := hb.hasWidths
  have hc := hc.hasWidths
  refine ⟨fun e => add_eq_ok_comm ha hb, fun e => ?_⟩
  rw [bind_eq_ok, bind_eq_ok]
  constructor
  · rintro ⟨s, hs, he⟩
    exact exists_add_eq_ok ha hb hc hs he
  · rintro ⟨t, ht, he⟩
    -- the same law, with all sums turned round
    have htwidths := (combines_of_add ht).hasWidths hb hc
    obtain ⟨s, hs, he'⟩ := exists_add_eq_ok hc hb ha ((add_eq_ok_comm hb hc).1 ht)
      ((add_eq_ok_comm ha htwidths).1 he)
    have hswidths := (combines_of_add hs).hasWidths hb ha
    exact ⟨s, (add_eq_ok_comm hb ha).1 hs, (add_eq_ok_comm hc hswidths).1 he'⟩

theorem sum_repeated_comm_assoc :
    let x : Variable := ⟨⟨0⟩, 3, none⟩
    let a : AffineExpr Int := sum (.ofVariable x)
    let b : AffineExpr Int := .ofVariable x
    let c : AffineExpr Int := plus (pick (.ofVariable x) [1]) 5
    let d : AffineExpr Int := pick (.ofVariable x) []
    (∃ e, (a.add b >>= (·.add c)) = .ok e ∧ (b.add c >>= a.add) = .ok e ∧ e.size = 3 ∧
      e.stored? x.id 0 1 = some 2 ∧ e.constant = [5, 5, 5]) ∧
    (∃ e, (c.add d >>= (·.add a)) = .ok e ∧ (d.add a >>= c.add) = .ok e ∧ e.size = 0) ∧
    ∀ e, b.add d ≠ .ok e ∧ d.add b ≠ .ok e := by
  intro x a b c d
  have ha : a.BuiltOver fun _ => 3 := ⟨.sum (.var x), by simp [Term.Over, Term.vars, x], rfl⟩
  have hb : b.BuiltOver fun _ => 3 := ⟨.var x, by simp [Term.Over, Term.vars, x], rfl⟩
  have hc : c.BuiltOver fun _ => 3 :=
    ⟨.plus (.index (.var x) 1) 5, by simp [Term.Over, Term.vars, x], rfl⟩
  have hd : d.BuiltOver fun _ => 3 := ⟨.select (.var x) [], by simp [Term.Over, Term.vars, x], rfl⟩
  have hfails : ∀ e, b.add d ≠ .ok e := by
    intro e h
    have hsizes := (combines_of_add h).sizes.1
    revert hsizes
    decide +kernel
  refine ⟨⟨_, rfl, ((add_comm_assoc ha hb hc).2 _).1 rfl, rfl, by decide +kernel,
    by decide +kernel⟩,
    ⟨_, rfl, ((add_comm_assoc hc hd ha).2 _).1 rfl, rfl⟩, fun e => ⟨hfails e, fun h => ?_⟩⟩
  exact hfails e (((add_comm_assoc hb hd ha).1 e).2 h)

end AffineExpr

end Conic
