import Conic.Proofs.AffineExpr

/-!
# Operations on expressions

What the operations on affine expressions make of blocks, sizes and values. Every operation keeps
the blocks it finds, and a sum has those of both operands (`blocks_join`). The value of a result is
computed from the values of the operands; where two of them share a block, their coefficient
matrices have to be equally wide for that (`value_join`).
-/

namespace Conic

/-! ## Merged maps -/

namespace SortedMap

variable {κ ν μ ξ : Type} [Ord κ]

theorem mapValues_mapValues (g : μ → ξ) (f : ν → μ) (m : SortedMap κ ν) :
    (m.mapValues f).mapValues g = m.mapValues fun v => g (f v) := by
  simp [mapValues, Function.comp_def]

/-- A sum over a merged map is the sum over both maps, if it is at their common keys. -/
theorem sum_map_merge [Std.TransOrd κ] [Std.LawfulEqOrd κ] [AddCommMonoid μ] {f : ν → ν → ν}
    {g : κ × ν → μ} {l r : List (κ × ν)}
    (h : ∀ a ∈ l, ∀ b ∈ r, a.1 = b.1 → g (a.1, f a.2 b.2) = g a + g b) :
    ((merge f l r).map g).sum = (l.map g).sum + (r.map g).sum := by
  -- on the left list, and for its head on the right one, as `merge` goes
  induction l generalizing r with
  | nil => simp [merge]
  | cons a l ih =>
    induction r with
    | nil => simp [merge, mergeFrom, ih]
    | cons b r ihr =>
      have hl : ∀ c ∈ l, ∀ d ∈ b :: r, c.1 = d.1 → g (c.1, f c.2 d.2) = g c + g d :=
        fun c hc => h c (List.mem_cons_of_mem _ hc)
      rw [merge, mergeFrom]
      split
      case _ => simp only [List.map_cons, List.sum_cons, ih hl, add_assoc]
      case _ heq =>
        have hab := h a List.mem_cons_self b List.mem_cons_self (compare_eq_iff.1 heq)
        have htail := ih fun c hc d hd => hl c hc d (List.mem_cons_of_mem _ hd)
        simp only [List.map_cons, List.sum_cons, htail, hab]
        exact add_add_add_comm ..
      case _ =>
        have hright := ihr fun c hc d hd => h c hc d (List.mem_cons_of_mem _ hd)
        rw [merge] at hright
        simp only [List.map_cons, List.sum_cons, hright]
        exact add_left_comm ..

end SortedMap

namespace AffineExpr

variable {α : Type}

/-! ## Blocks -/

/-- The blocks that occur are those of a list, each as wide as a table says. -/
def HasBlocks (e : AffineExpr α) (width : VarId → Nat) (ids : List VarId) : Prop :=
  ∀ id, e.blocks.find? id = if id ∈ ids then some (width id) else none

@[simp] theorem blocks_plus [Add α] (e : AffineExpr α) (value : α) :
    (e.plus value).blocks = e.blocks := rfl

@[simp] theorem blocks_neg [One α] [Mul α] [Neg α] (e : AffineExpr α) : e.neg.blocks = e.blocks :=
  SortedMap.mapValues_mapValues ..

@[simp] theorem blocks_scale [Mul α] (e : AffineExpr α) (factor : α) :
    (e.scale factor).blocks = e.blocks := SortedMap.mapValues_mapValues ..

@[simp] theorem blocks_pick [Zero α] [Add α] (e : AffineExpr α) (indices : List Nat) :
    (e.pick indices).blocks = e.blocks := SortedMap.mapValues_mapValues ..

@[simp] theorem blocks_sum [Zero α] [Add α] (e : AffineExpr α) : e.sum.blocks = e.blocks :=
  SortedMap.mapValues_mapValues ..

theorem blocks_join [Add α] (a b : AffineExpr α) (h : a.size = b.size) :
    (a.join b h).blocks = a.blocks.mergeWith (fun w _ => w) b.blocks := by
  refine SortedMap.ext_find? fun id => ?_
  rw [blocks, SortedMap.find?_mapValues, SortedMap.find?_mergeWith, blocks, blocks,
    SortedMap.find?_mapValues, SortedMap.find?_mapValues]
  show ((a.coeffs.mergeWith SparseMatrix.add b.coeffs).find? id).map _ = _
  rw [SortedMap.find?_mergeWith]
  cases a.coeffs.find? id <;> cases b.coeffs.find? id <;> rfl

theorem hasBlocks_singleton {e : AffineExpr α} {v : Variable} {m : SparseMatrix α}
    (h : e.coeffs = .singleton v.id m) {width : VarId → Nat} (hm : m.ncols = width v.id) :
    e.HasBlocks width [v.id] := by
  intro id
  rw [blocks, h, SortedMap.find?_mapValues]
  by_cases hid : id = v.id
  · rw [hid, SortedMap.find?_singleton_self, if_pos (List.mem_singleton_self _), ← hm]
    rfl
  · rw [SortedMap.find?_singleton_ne hid, if_neg (by simpa using hid)]
    rfl

namespace HasBlocks

variable {width : VarId → Nat} {ids ids' : List VarId}

theorem join [Add α] {a b : AffineExpr α} (ha : a.HasBlocks width ids) (hb : b.HasBlocks width ids')
    (h : a.size = b.size) : (a.join b h).HasBlocks width (ids ++ ids') := by
  intro id
  rw [blocks_join, SortedMap.find?_mergeWith, ha id, hb id]
  by_cases hid : id ∈ ids <;> by_cases hid' : id ∈ ids' <;> simp [hid, hid']

theorem of_blocks_eq {e e' : AffineExpr α} (h : e.HasBlocks width ids)
    (heq : e'.blocks = e.blocks) :
    e'.HasBlocks width ids := by
  intro id
  rw [heq]
  exact h id

theorem broadcast [Zero α] [Add α] {e : AffineExpr α} (h : e.HasBlocks width ids) (n : Nat) :
    (e.broadcast n).HasBlocks width ids := h.of_blocks_eq (blocks_pick ..)

theorem mem_entries {e : AffineExpr α} (h : e.HasBlocks width ids) {id : VarId} {n : Nat} :
    (id, n) ∈ e.blocks.entries ↔ id ∈ ids ∧ n = width id := by
  rw [← SortedMap.find?_eq_some_iff, h id]
  split
  case isTrue hid => simp [hid, eq_comm]
  case isFalse hid => simp [hid]

theorem ncols_eq {e : AffineExpr α} (h : e.HasBlocks width ids) {id : VarId} {m : SparseMatrix α}
    (hm : (id, m) ∈ e.coeffs.entries) : m.ncols = width id :=
  (h.mem_entries.1 (List.mem_map_of_mem (f := fun t => (t.1, t.2.ncols)) hm)).2

end HasBlocks

/-! ## Success and sizes -/

@[simp] theorem size_plus [Add α] (e : AffineExpr α) (value : α) :
    (e.plus value).size = e.size := by
  simp [plus, size, DenseVector.shift]

@[simp] theorem size_neg [One α] [Mul α] [Neg α] (e : AffineExpr α) : e.neg.size = e.size := by
  simp [neg, size, DenseVector.neg]

@[simp] theorem size_scale [Mul α] (e : AffineExpr α) (factor : α) :
    (e.scale factor).size = e.size := by
  simp [scale, size, DenseVector.scale]

theorem size_join [Add α] {a b : AffineExpr α} (h : a.size = b.size) :
    (a.join b h).size = b.size := by
  simp only [size] at h
  simp [join, size, DenseVector.add, h]

/-- A step with an expression of `n` entries as its result if a condition holds, and with a mismatch
of shapes if not. -/
def ShapeChecked (step : Except Error (AffineExpr α)) (ok : Prop) (n : Nat) : Prop :=
  (ok ∧ ∃ e, step = .ok e ∧ e.size = n) ∨ (¬ ok ∧ ∃ fault, step = .error (.shapeMismatch fault))

namespace ShapeChecked

variable {step : Except Error (AffineExpr α)} {ok : Prop} {n : Nat}

theorem size_eq (h : ShapeChecked step ok n) {e : AffineExpr α} (he : step = .ok e) :
    e.size = n := by
  obtain ⟨-, e', he', hn⟩ | ⟨-, fault, hfault⟩ := h
  · rw [he] at he'
    cases he'
    exact hn
  · rw [he] at hfault
    cases hfault

theorem exists_iff (h : ShapeChecked step ok n) : (∃ e, step = .ok e) ↔ ok := by
  obtain ⟨hok, e, he, -⟩ | ⟨hok, fault, hfault⟩ := h
  · exact iff_of_true ⟨e, he⟩ hok
  · refine iff_of_false ?_ hok
    rintro ⟨e, he⟩
    rw [hfault] at he
    cases he

theorem exists_fault (h : ShapeChecked step ok n) (hok : ¬ ok) :
    ∃ fault, step = .error (.shapeMismatch fault) :=
  (h.resolve_left fun hleft => hok hleft.1).2

theorem map (h : ShapeChecked step ok n) {f : AffineExpr α → AffineExpr α} {m : Nat}
    (hf : ∀ e, e.size = n → (f e).size = m) : ShapeChecked (f <$> step) ok m := by
  obtain ⟨hok, e, rfl, hn⟩ | ⟨hok, fault, rfl⟩ := h
  · exact .inl ⟨hok, f e, rfl, hf e hn⟩
  · exact .inr ⟨hok, fault, rfl⟩

/-- Both steps have to pass their checks, the second one on the result of the first. -/
theorem bind (h : ShapeChecked step ok n) {f : AffineExpr α → Except Error (AffineExpr α)}
    {ok' : Prop} {m : Nat} (hf : ∀ e, e.size = n → ShapeChecked (f e) ok' m) :
    ShapeChecked (step >>= f) (ok ∧ ok') m := by
  obtain ⟨hok, e, rfl, hn⟩ | ⟨hok, fault, rfl⟩ := h
  · obtain ⟨hok', hnext⟩ | ⟨hok', hnext⟩ := hf e hn
    · exact .inl ⟨⟨hok, hok'⟩, hnext⟩
    · exact .inr ⟨fun hboth => hok' hboth.2, hnext⟩
  · exact .inr ⟨fun hboth => hok hboth.1, fault, rfl⟩

end ShapeChecked

theorem shapeChecked_ofSparse (v : Variable) (coeff : SparseMatrix α) (offset : DenseVector α) :
    ShapeChecked (ofSparse v coeff offset) (coeff.ncols = v.size ∧ coeff.nrows = offset.length)
      offset.length := by
  rw [ofSparse]
  by_cases hcols : coeff.ncols = v.size
  · rw [if_neg (not_not.2 hcols)]
    by_cases hrows : coeff.nrows = offset.length
    · rw [dif_pos hrows]
      exact .inl ⟨⟨hcols, hrows⟩, _, rfl, rfl⟩
    · rw [dif_neg hrows]
      exact .inr ⟨fun h => hrows h.2, _, rfl⟩
  · rw [if_pos hcols]
    exact .inr ⟨fun h => hcols h.1, _, rfl⟩

theorem shapeChecked_select [Zero α] [Add α] (e : AffineExpr α) (indices : List Nat) :
    ShapeChecked (e.select indices) (∀ i ∈ indices, i < e.size) indices.length := by
  by_cases h : ∀ i ∈ indices, i < e.size
  · exact .inl ⟨h, _, select_eq_ok h, e.size_pick indices⟩
  · refine .inr ⟨h, ?_⟩
    rw [select]
    split
    case h_1 => exact ⟨_, rfl⟩
    case h_2 hnone =>
      refine absurd (fun i hi => ?_) h
      simpa using List.find?_eq_none.1 hnone i hi

theorem shapeChecked_add [Zero α] [Add α] (a b : AffineExpr α) :
    ShapeChecked (a.add b) (a.size = b.size ∨ a.size = 1 ∨ b.size = 1)
      (if a.size = 1 then b.size else a.size) := by
  rw [add]
  by_cases hsize : a.size = b.size
  · rw [dif_pos hsize, hsize, ite_self]
    exact .inl ⟨.inl rfl, _, rfl, size_join hsize⟩
  · rw [dif_neg hsize]
    by_cases hleft : a.size = 1
    · rw [if_pos hleft, if_pos hleft]
      exact .inl ⟨.inr (.inl hleft), _, rfl, size_join _⟩
    · rw [if_neg hleft, if_neg hleft]
      by_cases hright : b.size = 1
      · rw [if_pos hright]
        exact .inl ⟨.inr (.inr hright), _, rfl, (size_join _).trans (size_broadcast ..)⟩
      · rw [if_neg hright]
        exact .inr ⟨fun h => (h.resolve_left hsize).elim hleft hright, _, rfl⟩

theorem shapeChecked_sub [Zero α] [One α] [Add α] [Mul α] [Neg α] (a b : AffineExpr α) :
    ShapeChecked (a.sub b) (a.size = b.size ∨ a.size = 1 ∨ b.size = 1)
      (if a.size = 1 then b.size else a.size) := by
  rw [← b.size_neg]
  exact shapeChecked_add a b.neg

/-! ## Results -/

theorem ofSparse_eq_ok {v : Variable} {coeff : SparseMatrix α} {offset : DenseVector α}
    {e : AffineExpr α} (h : ofSparse v coeff offset = .ok e) :
    coeff.ncols = v.size ∧ coeff.nrows = offset.length ∧ e.coeffs = .singleton v.id coeff ∧
      e.constant = offset := by
  rw [ofSparse] at h
  split at h
  case isTrue => cases h
  case isFalse hcols =>
    split at h
    case isTrue hrows =>
      cases h
      exact ⟨not_not.1 hcols, hrows, rfl, rfl⟩
    case isFalse => cases h

theorem eq_pick_of_select [Zero α] [Add α] {e e' : AffineExpr α} {indices : List Nat}
    (h : e.select indices = .ok e') : (∀ i ∈ indices, i < e.size) ∧ e' = e.pick indices := by
  have hinside := (shapeChecked_select e indices).exists_iff.1 ⟨e', h⟩
  rw [select_eq_ok hinside] at h
  exact ⟨hinside, (Except.ok.inj h).symm⟩

/-- Operands of different sizes are joined after the one of size one was repeated. -/
theorem add_eq_ok [Zero α] [Add α] {a b e : AffineExpr α} (h : a.add b = .ok e) :
    (∃ hsize, e = a.join b hsize) ∨
      (a.size = 1 ∧ ∃ hsize, e = (a.broadcast b.size).join b hsize) ∨
        (b.size = 1 ∧ ∃ hsize, e = a.join (b.broadcast a.size) hsize) := by
  rw [add] at h
  split at h
  case isTrue hsize =>
    cases h
    exact .inl ⟨hsize, rfl⟩
  case isFalse =>
    split at h
    case isTrue hleft =>
      cases h
      exact .inr (.inl ⟨hleft, _, rfl⟩)
    case isFalse =>
      split at h
      case isTrue hright =>
        cases h
        exact .inr (.inr ⟨hright, _, rfl⟩)
      case isFalse => cases h

theorem HasBlocks.add [Zero α] [Add α] {width : VarId → Nat} {ids ids' : List VarId}
    {a b e : AffineExpr α} (ha : a.HasBlocks width ids) (hb : b.HasBlocks width ids')
    (h : a.add b = .ok e) : e.HasBlocks width (ids ++ ids') := by
  obtain ⟨hsize, rfl⟩ | ⟨_, hsize, rfl⟩ | ⟨_, hsize, rfl⟩ := add_eq_ok h
  · exact ha.join hb hsize
  · exact (ha.broadcast _).join hb hsize
  · exact ha.join (hb.broadcast _) hsize

end AffineExpr

/-! ## Values -/

/-- Two vectors combined entry by entry, where a vector of one entry counts for every entry of the
other. -/
def DenseVector.spread {α : Type} (f : α → α → α) : DenseVector α → DenseVector α → DenseVector α
  | [a], w => w.map (f a)
  | v, [b] => v.map (f · b)
  | v, w => List.zipWith f v w

namespace DenseVector

variable {α : Type}

theorem spread_of_length_eq (f : α → α → α) {v w : DenseVector α} (h : v.length = w.length) :
    spread f v w = List.zipWith f v w := by
  match v, w, h with
  | [], [], _ => rfl
  | [a], [b], _ => rfl
  | _ :: _ :: _, _ :: _ :: _, _ => rfl

theorem spread_singleton (f : α → α → α) (v : DenseVector α) (b : α) :
    spread f v [b] = v.map (f · b) := by
  match v with
  | [] => rfl
  | [a] => rfl
  | _ :: _ :: _ => rfl

theorem spread_neg [AddGroup α] (v w : DenseVector α) :
    spread (· + ·) v (w.map (- ·)) = spread (· - ·) v w := by
  match v, w with
  | [], [] => rfl
  | [], [b] => rfl
  | [], _ :: _ :: _ => rfl
  | [a], w => simp [spread, sub_eq_add_neg, Function.comp_def]
  | _ :: _ :: _, [] => rfl
  | _ :: _ :: _, [b] => simp [spread, sub_eq_add_neg]
  | _ :: _ :: _, _ :: _ :: _ => simp [spread, List.zipWith_map_right, sub_eq_add_neg]

end DenseVector

/-- The product of a matrix written out with a vector. -/
def DenseMatrix.mulVec {α : Type} [CommRing α] (d : DenseMatrix α) (x : DenseVector α) :
    DenseVector α :=
  d.rows.map (·.dot x)

namespace AffineExpr

variable {α : Type} [CommRing α] {x : Assignment α}

theorem entry_value {e : AffineExpr α} {i : Nat} (h : i < e.size) :
    (e.value x).entry i = e.valueAt x i :=
  DenseVector.entry_map_range _ h

theorem value_eq_of_entry {e : AffineExpr α} {w : DenseVector α} (hlen : w.length = e.size)
    (h : ∀ i < e.size, e.valueAt x i = w.entry i) : e.value x = w := by
  rw [← w.map_entry_range, hlen]
  exact List.map_congr_left fun i hi => h i (List.mem_range.1 hi)

theorem valueAt_of_singleton {e : AffineExpr α} {id : VarId} {m : SparseMatrix α}
    (h : e.coeffs = .singleton id m) (i : Nat) :
    e.valueAt x i = m.rowValue (x id) i + e.constant.entry i := by
  rw [valueAt, h]
  simp [SortedMap.singleton]

theorem value_ofVariable {v : Variable} (hx : (x v.id).length = v.size) :
    (ofVariable v).value x = x v.id := by
  refine value_eq_of_entry (by simpa [ofVariable, size, DenseVector.zeros] using hx) fun i hi => ?_
  have hi : i < v.size := by simpa [ofVariable, size, DenseVector.zeros] using hi
  have hzero : (ofVariable v : AffineExpr α).constant.entry i = 0 := by
    simp [ofVariable, DenseVector.zeros, DenseVector.entry_eq, hi]
  rw [valueAt_of_singleton rfl, SparseMatrix.rowValue_identity hi, hzero, add_zero]

theorem value_ofConstant (values : DenseVector α) : (ofConstant values).value x = values :=
  value_eq_of_entry rfl fun i _ => by simp [valueAt, ofConstant, SortedMap.empty]

theorem value_ofSparse {v : Variable} {coeff : SparseMatrix α} {offset : DenseVector α}
    {e : AffineExpr α} (h : ofSparse v coeff offset = .ok e) :
    e.value x = (coeff.mulVec (x v.id)).add offset := by
  obtain ⟨-, hrows, hcoeffs, rfl⟩ := ofSparse_eq_ok h
  refine List.ext_getElem (by simp [value, size, DenseVector.add, hrows]) fun i hi hi' => ?_
  have hi : i < e.constant.length := by simpa [value, size] using hi
  simp only [value, DenseVector.add, SparseMatrix.mulVec, List.getElem_map, List.getElem_range,
    List.getElem_zipWith]
  rw [valueAt_of_singleton hcoeffs, DenseVector.entry_of_lt hi]

theorem value_ofDense [BEq α] [LawfulBEq α] {v : Variable} {coeff : DenseMatrix α}
    {offset : DenseVector α} {e : AffineExpr α} (h : ofDense v coeff offset = .ok e) :
    e.value x = (coeff.mulVec (x v.id)).add offset := by
  have hrows : (SparseMatrix.ofDense coeff).mulVec (x v.id) = coeff.mulVec (x v.id) := by
    refine List.ext_getElem (by simp [SparseMatrix.ofDense, DenseMatrix.nrows, DenseMatrix.mulVec])
      fun i hi hi' => ?_
    have hi : i < coeff.rows.length := by simpa [DenseMatrix.mulVec] using hi'
    simp only [SparseMatrix.mulVec, DenseMatrix.mulVec, List.getElem_map, List.getElem_range]
    rw [SparseMatrix.rowValue_ofDense coeff hi,
      DenseVector.dot_eq_sum (coeff.uniform _ (List.getElem_mem hi)).le]
    refine Finset.sum_congr rfl fun col _ => ?_
    rw [DenseMatrix.entry, List.getD_eq_getElem?_getD, List.getElem?_eq_getElem hi]
    rfl
  rw [value_ofSparse h, hrows]

theorem value_eq_map {e e' : AffineExpr α} (hsize : e'.size = e.size) {f : α → α}
    (h : ∀ i < e.size, e'.valueAt x i = f (e.valueAt x i)) : e'.value x = (e.value x).map f := by
  rw [value, value, hsize, List.map_map]
  exact List.map_congr_left fun i hi => h i (List.mem_range.1 hi)

theorem value_plus (e : AffineExpr α) (c : α) : (e.plus c).value x = (e.value x).map (· + c) := by
  refine value_eq_map (e.size_plus c) fun i hi => ?_
  have hentry : (e.plus c).constant.entry i = e.constant.entry i + c :=
    DenseVector.entry_map (· + c) hi
  rw [valueAt, valueAt, hentry, add_assoc]
  rfl

theorem value_scale (e : AffineExpr α) (c : α) : (e.scale c).value x = (e.value x).map (· * c) := by
  refine value_eq_map (e.size_scale c) fun i hi => ?_
  have hentry : (e.scale c).constant.entry i = e.constant.entry i * c :=
    DenseVector.entry_map (· * c) hi
  rw [valueAt, valueAt, hentry, add_mul, ← List.sum_map_mul_right]
  simp only [scale, SortedMap.mapValues, List.map_map, Function.comp_def,
    SparseMatrix.rowValue_scale]

theorem value_neg (e : AffineExpr α) : e.neg.value x = (e.value x).map (- ·) := by
  refine value_eq_map e.size_neg fun i hi => ?_
  have hentry : e.neg.constant.entry i = - e.constant.entry i := DenseVector.entry_map (- ·) hi
  rw [valueAt, valueAt, hentry, neg_add, ← mul_neg_one (List.sum _), ← List.sum_map_mul_right]
  simp only [neg, SortedMap.mapValues, List.map_map, Function.comp_def, SparseMatrix.rowValue_neg,
    mul_neg_one]

theorem value_pick {e : AffineExpr α} {indices : List Nat} (h : ∀ i ∈ indices, i < e.size) :
    (e.pick indices).value x = indices.map (e.value x).entry := by
  refine value_eq_of_entry (by simp) fun i hi => ?_
  have hi : i < indices.length := by simpa using hi
  have hpicked : ∀ f : Nat → α, DenseVector.entry (indices.map f) i = f indices[i] := by
    intro f
    rw [DenseVector.entry_of_lt (by simpa using hi), List.getElem_map]
  have hentry : (e.pick indices).constant.entry i = e.constant.entry indices[i] := hpicked _
  rw [hpicked, entry_value (h _ (List.getElem_mem hi)), valueAt, valueAt, hentry]
  simp only [pick, SortedMap.mapValues, List.map_map, Function.comp_def,
    SparseMatrix.rowValue_selectRows _ hi]

theorem value_sum (e : AffineExpr α) : e.sum.value x = [List.sum (e.value x)] := by
  -- the sums over entries and over blocks change places
  have hswap : ∀ l : List (VarId × SparseMatrix α), (∀ t ∈ l, t.2.nrows = e.size) →
      (l.map fun t => t.2.sumRows.rowValue (x t.1) 0).sum =
        ∑ i ∈ Finset.range e.size, (l.map fun t => t.2.rowValue (x t.1) i).sum := by
    intro l
    induction l with
    | nil => simp
    | cons t l ih =>
      intro hrows
      simp only [List.map_cons, List.sum_cons]
      rw [ih fun d hd => hrows d (List.mem_cons_of_mem _ hd), Finset.sum_add_distrib,
        SparseMatrix.rowValue_sumRows, hrows t List.mem_cons_self]
  have hrows : ∀ t ∈ e.coeffs.entries, t.2.nrows = e.size := fun t ht =>
    e.rows_eq t.2 (List.mem_map_of_mem ht)
  have hconstant : DenseVector.sum e.constant = ∑ i ∈ Finset.range e.size, e.constant.entry i := by
    show e.constant.foldl (· + ·) 0 = ((List.range e.constant.length).map e.constant.entry).sum
    rw [DenseVector.map_entry_range, List.sum_eq_foldl]
  have hvalue : List.sum (e.value x) = ∑ i ∈ Finset.range e.size, e.valueAt x i := rfl
  rw [hvalue]
  show [e.sum.valueAt x 0] = _
  simp only [valueAt, sum, SortedMap.mapValues, List.map_map, Function.comp_def]
  rw [hswap _ hrows, Finset.sum_add_distrib, ← hconstant]
  rfl

theorem value_join {a b : AffineExpr α} (h : a.size = b.size)
    (hwidth : ∀ id m n, (id, m) ∈ a.coeffs.entries → (id, n) ∈ b.coeffs.entries →
      m.ncols = n.ncols) : (a.join b h).value x = (a.value x).add (b.value x) := by
  have hlen : (a.value x).length = (b.value x).length := by rw [length_value, length_value, h]
  refine value_eq_of_entry ?_ fun i hi => ?_
  · rw [size_join, DenseVector.add, List.length_zipWith, hlen, Nat.min_self, length_value]
  · rw [size_join] at hi
    have hia : i < a.size := h ▸ hi
    have hrow : ∀ t ∈ a.coeffs.entries, i < t.2.nrows := fun t ht => by
      rw [a.rows_eq t.2 (List.mem_map_of_mem ht)]
      exact hia
    have hmerge := SortedMap.sum_map_merge (f := SparseMatrix.add) (l := a.coeffs.entries)
      (r := b.coeffs.entries) (g := fun t => t.2.rowValue (x t.1) i) <| by
        rintro ⟨id, m⟩ hm ⟨id', n⟩ hn hid
        obtain rfl : id = id' := hid
        exact SparseMatrix.rowValue_add (hwidth id m n hm hn) (hrow _ hm) _
    rw [DenseVector.entry_add hlen, entry_value hia, entry_value hi, valueAt, valueAt, valueAt]
    show (List.map _ (SortedMap.merge _ _ _)).sum + (a.constant.add b.constant).entry i = _
    rw [hmerge, DenseVector.entry_add h]
    exact add_add_add_comm ..

theorem value_of_size_one {e : AffineExpr α} (h : e.size = 1) : e.value x = [e.valueAt x 0] := by
  rw [value, h]
  rfl

theorem value_broadcast {e : AffineExpr α} (h : e.size = 1) (n : Nat) :
    (e.broadcast n).value x = List.replicate n (e.valueAt x 0) := by
  have hinside : ∀ i ∈ List.replicate n 0, i < e.size := fun i hi => by
    rw [List.eq_of_mem_replicate hi, h]
    exact Nat.one_pos
  rw [broadcast, value_pick hinside, List.map_replicate, entry_value (by omega)]

/-- The blocks that both operands have are of one width, which their table gives. -/
theorem value_add {width : VarId → Nat} {ids ids' : List VarId} {a b e : AffineExpr α}
    (ha : a.HasBlocks width ids) (hb : b.HasBlocks width ids') (h : a.add b = .ok e) :
    e.value x = DenseVector.spread (· + ·) (a.value x) (b.value x) := by
  have hjoin : ∀ {a b : AffineExpr α} (hsize : a.size = b.size), a.HasBlocks width ids →
      b.HasBlocks width ids' → (a.join b hsize).value x = (a.value x).add (b.value x) := by
    intro a b hsize ha hb
    refine value_join hsize fun id m n hm hn => ?_
    rw [ha.ncols_eq hm, hb.ncols_eq hn]
  obtain ⟨hsize, rfl⟩ | ⟨hleft, hsize, rfl⟩ | ⟨hright, hsize, rfl⟩ := add_eq_ok h
  · rw [hjoin hsize ha hb,
      DenseVector.spread_of_length_eq _ (by rw [length_value, length_value, hsize])]
    rfl
  · rw [hjoin hsize (ha.broadcast _) hb, value_broadcast hleft, value_of_size_one hleft]
    refine List.ext_getElem (by simp [DenseVector.add, DenseVector.spread, length_value]) ?_
    intro i hi hi'
    simp [DenseVector.add, DenseVector.spread]
  · rw [hjoin hsize ha (hb.broadcast _), value_broadcast hright, value_of_size_one hright,
      DenseVector.spread_singleton]
    refine List.ext_getElem (by simp [DenseVector.add, length_value]) ?_
    intro i hi hi'
    simp [DenseVector.add]

theorem value_sub {width : VarId → Nat} {ids ids' : List VarId} {a b e : AffineExpr α}
    (ha : a.HasBlocks width ids) (hb : b.HasBlocks width ids') (h : a.sub b = .ok e) :
    e.value x = DenseVector.spread (· - ·) (a.value x) (b.value x) := by
  rw [value_add ha (hb.of_blocks_eq b.blocks_neg) h, value_neg, DenseVector.spread_neg]

end AffineExpr

end Conic
