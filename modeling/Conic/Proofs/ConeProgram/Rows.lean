import Conic.ConeProgram.Rows
import Conic.Proofs.AffineExpr
import Mathlib.Data.List.Flatten

/-!
# The rows of a constraint

Where the rows of the arguments end up in the block of a constraint. `interleave` moves the rows of
each expression to places of their own (`interleave_eq_ok`); the places of a second-order or
exponential condition are all rows of its block, each once (`bound_body_perm`, `triple_perm`).
-/

namespace Conic

/-! ## Places -/

/-- The rows of the bounds and of the bodies are all rows of the cones, each once. -/
theorem bound_body_perm (cones body : Nat) :
    (boundRows cones body ++ bodyRows cones body).Perm (List.range (cones * (body + 1))) := by
  have hrange := map_range_mul cones (body + 1) id
  rw [List.map_id] at hrange
  have hbound : boundRows cones body =
      (List.range cones).flatMap fun j => [j * (body + 1)] := by
    rw [boundRows, List.map_eq_flatMap]
  rw [hbound, bodyRows, hrange]
  refine (List.flatMap_append_perm _ _ _).trans (List.Perm.of_eq ?_)
  refine List.flatMap_congr fun j _ => ?_
  rw [map_range_succ]
  simp only [id_eq, Nat.add_zero, List.singleton_append, List.cons.injEq, true_and]
  exact List.map_congr_left fun r _ => by omega

/-- In an order that is a permutation, the rows of the three arguments are all rows of the cones,
each once. -/
theorem triple_perm {o : ExpOrder} (ho : o.IsPermutation) (cones : Nat) :
    (tripleRows cones o.x ++ (tripleRows cones o.y ++ tripleRows cones o.z)).Perm
      (List.range (cones * 3)) := by
  have hrange := map_range_mul cones 3 id
  rw [List.map_id] at hrange
  have hrows : ∀ offset, tripleRows cones offset =
      (List.range cones).flatMap fun j => [3 * j + offset] := by
    intro offset
    rw [tripleRows, List.map_eq_flatMap]
  rw [hrows, hrows, hrows, hrange]
  refine ((List.flatMap_append_perm _ _ _).append_left _).trans ?_
  refine (List.flatMap_append_perm _ _ _).trans ?_
  refine List.Perm.flatMap_left _ fun j _ => ?_
  have hcone := ho.map (3 * j + ·)
  simpa [ExpOrder.rows, List.range_succ, Nat.mul_comm] using hcone

theorem standard_isPermutation : ExpOrder.standard.IsPermutation := by decide

@[simp] theorem length_boundRows (cones body : Nat) : (boundRows cones body).length = cones := by
  simp [boundRows]

@[simp] theorem length_bodyRows (cones body : Nat) :
    (bodyRows cones body).length = cones * body := by
  simp [bodyRows, List.length_flatMap]

@[simp] theorem length_tripleRows (cones offset : Nat) :
    (tripleRows cones offset).length = cones := by
  simp [tripleRows]

theorem getElem?_boundRows {cones body j : Nat} (hj : j < cones) :
    (boundRows cones body)[j]? = some (j * (body + 1)) := by
  rw [boundRows, List.getElem?_map, List.getElem?_range hj]
  rfl

theorem getElem?_bodyRows {cones body j r : Nat} (hj : j < cones) (hr : r < body) :
    (bodyRows cones body)[j * body + r]? = some (j * (body + 1) + 1 + r) := by
  have hdiv : ∀ i s, s < body → (i * body + s) / body = i := by
    intro i s hs
    rw [Nat.mul_comm, Nat.mul_add_div (by omega), Nat.div_eq_of_lt hs, Nat.add_zero]
  -- row `i` of the bodies has `i / body` bodies and `i / body + 1` bounds before it
  have hflat : bodyRows cones body =
      (List.range (cones * body)).map fun i => i + i / body + 1 := by
    rw [map_range_mul, bodyRows]
    refine List.flatMap_congr fun i _ => List.map_congr_left fun s hs => ?_
    rw [hdiv i s (List.mem_range.1 hs), Nat.mul_succ]
    omega
  have hlt : j * body + r < cones * body := by
    have := Nat.mul_le_mul_right body hj
    rw [Nat.succ_mul] at this
    omega
  rw [hflat, List.getElem?_map, List.getElem?_range hlt, Option.map_some, hdiv j r hr, Nat.mul_succ]
  congr 1
  omega

theorem getElem?_tripleRows {cones offset j : Nat} (hj : j < cones) :
    (tripleRows cones offset)[j]? = some (3 * j + offset) := by
  rw [tripleRows, List.getElem?_map, List.getElem?_range hj]
  rfl

/-! ## Placing expressions in a block -/

namespace RowBlock

variable {α : Type}

/-- Row `i` of `rows` is row `places[i]` of the block. -/
def Holds (block rows : RowBlock α) (places : List Nat) : Prop :=
  ∀ i row, places[i]? = some row →
    (∀ col, block.matrix.get? row col = rows.matrix.get? i col) ∧
      block.offset[row]? = rows.offset[i]?

/-- Row `i` of `a` is row `j` of `b`. -/
def RowEq (a : RowBlock α) (i : Nat) (b : RowBlock α) (j : Nat) : Prop :=
  (∀ col, a.matrix.get? i col = b.matrix.get? j col) ∧ a.offset[i]? = b.offset[j]?

theorem RowEq.symm {a b : RowBlock α} {i j : Nat} (h : a.RowEq i b j) : b.RowEq j a i :=
  ⟨fun col => (h.1 col).symm, h.2.symm⟩

theorem RowEq.trans {a b c : RowBlock α} {i j k : Nat} (h : a.RowEq i b j) (h' : b.RowEq j c k) :
    a.RowEq i c k :=
  ⟨fun col => (h.1 col).trans (h'.1 col), h.2.trans h'.2⟩

/-- The block stores nothing on these rows. -/
def EmptyOn (block : RowBlock α) (places : List Nat) : Prop :=
  ∀ row ∈ places, ∀ col, block.matrix.get? row col = none

/-- The blocks agree away from these rows. -/
def AgreeOff (a b : RowBlock α) (places : List Nat) : Prop :=
  ∀ row, row ∉ places →
    (∀ col, a.matrix.get? row col = b.matrix.get? row col) ∧ a.offset[row]? = b.offset[row]?

theorem AgreeOff.append {a b c : RowBlock α} {places places' : List Nat} (h : b.AgreeOff a places)
    (h' : c.AgreeOff b places') : c.AgreeOff a (places ++ places') := by
  intro row hrow
  rw [List.mem_append, not_or] at hrow
  obtain ⟨hm, ho⟩ := h row hrow.1
  obtain ⟨hm', ho'⟩ := h' row hrow.2
  exact ⟨fun col => (hm' col).trans (hm col), ho'.trans ho⟩

/-- Rows stay where they are when other rows change. -/
theorem Holds.of_agreeOff {a b rows : RowBlock α} {places places' : List Nat}
    (h : a.Holds rows places) (h' : b.AgreeOff a places') (hdisj : ∀ row ∈ places, row ∉ places') :
    b.Holds rows places := by
  intro i row hrow
  obtain ⟨hm, ho⟩ := h i row hrow
  obtain ⟨hm', ho'⟩ := h' row (hdisj row (List.mem_of_getElem? hrow))
  exact ⟨fun col => (hm' col).trans (hm col), ho'.trans ho⟩

variable [Add α]

theorem place_eq_ok {v : Variable} {block block' : RowBlock α} {e : AffineExpr α}
    {places : List Nat} {nrows : Nat} (h : block.place v e places = .ok block')
    (hfits : block.Fits nrows v.size) (hnd : places.Nodup) (hlen : places.length = e.size)
    (hempty : block.EmptyOn places) :
    block'.Fits nrows v.size ∧ block'.AgreeOff block places ∧
      ∃ rows, e.rowsOver v = .ok rows ∧ block'.Holds rows places := by
  obtain ⟨rows, hrows, h⟩ := bind_eq_ok.1 h
  have hrowsFit := AffineExpr.rowsOver_fits hrows
  split at h
  case h_2 => cases h
  case h_1 offset hwrite =>
    cases h
    obtain ⟨hwlen, hkeep, hnew⟩ := DenseVector.writeAll?_eq_some hwrite
    have hfst : (places.zip rows.offset).map Prod.fst = places :=
      List.map_fst_zip (by rw [hrowsFit.length_offset]; omega)
    rw [hfst] at hkeep hnew
    have hr : block.matrix.nrows =
        (rows.matrix.scatterRows places block.matrix.nrows).nrows := rfl
    have hc : block.matrix.ncols =
        (rows.matrix.scatterRows places block.matrix.nrows).ncols := by
      rw [hfits.ncols_eq, SparseMatrix.scatterRows_ncols, hrowsFit.ncols_eq]
    refine ⟨⟨hfits.nrows_eq, hfits.ncols_eq, by rw [hwlen, hfits.length_offset]⟩, ?_, rows, hrows,
      ?_⟩
    · intro row hrow
      refine ⟨fun col => ?_, hkeep row hrow⟩
      rw [SparseMatrix.get?_add hr hc, SparseMatrix.get?_scatterRows_of_notMem _ hrow,
        Option.merge_none_right]
    · intro i row hrow
      obtain ⟨hi, rfl⟩ := List.getElem?_eq_some_iff.1 hrow
      have hioff : i < rows.offset.length := by rw [hrowsFit.length_offset]; omega
      have hmem : (places[i], rows.offset[i]) ∈ places.zip rows.offset := by
        rw [List.mem_iff_getElem]
        exact ⟨i, by rw [List.length_zip]; omega, List.getElem_zip⟩
      have hnewi := hnew hnd _ hmem
      refine ⟨fun col => ?_, by rw [hnewi, List.getElem?_eq_getElem hioff]⟩
      -- the write succeeded, so the place is a row of the block
      have hbound : places[i] < block.matrix.nrows := by
        have := (List.getElem?_eq_some_iff.1 hnewi).1
        rw [hwlen, hfits.length_offset] at this
        rw [hfits.nrows_eq]
        exact this
      rw [SparseMatrix.get?_add hr hc, hempty _ (List.getElem_mem hi), Option.merge_none_left]
      exact SparseMatrix.get?_scatterRows_dest _ hnd hi hbound col

theorem foldlM_place_eq_ok {v : Variable} {nrows : Nat} {parts : List (AffineExpr α × List Nat)}
    {start block : RowBlock α}
    (h : parts.foldlM (fun block part => block.place v part.1 part.2) start = .ok block)
    (hfits : start.Fits nrows v.size) (hnd : (parts.flatMap Prod.snd).Nodup)
    (hlen : ∀ part ∈ parts, part.2.length = part.1.size)
    (hempty : start.EmptyOn (parts.flatMap Prod.snd)) :
    block.Fits nrows v.size ∧ block.AgreeOff start (parts.flatMap Prod.snd) ∧
      ∀ part ∈ parts, ∃ rows, part.1.rowsOver v = .ok rows ∧ block.Holds rows part.2 := by
  induction parts generalizing start with
  | nil =>
    cases h
    exact ⟨hfits, fun _ _ => ⟨fun _ => rfl, rfl⟩, fun _ hpart => absurd hpart List.not_mem_nil⟩
  | cons part parts ih =>
    rw [List.foldlM_cons] at h
    obtain ⟨next, hnext, h⟩ := bind_eq_ok.1 h
    rw [List.flatMap_cons] at hnd hempty ⊢
    obtain ⟨hndPart, hndRest, hdisj⟩ := List.nodup_append.1 hnd
    obtain ⟨hfits', hagree, rows, hrows, hholds⟩ := place_eq_ok hnext hfits hndPart
      (hlen part (by simp)) fun row hrow => hempty row (List.mem_append_left _ hrow)
    have hemptyRest : next.EmptyOn (parts.flatMap Prod.snd) := by
      intro row hrow col
      have hnot : row ∉ part.2 := fun hp => hdisj row hp row hrow rfl
      rw [(hagree row hnot).1, hempty row (List.mem_append_right _ hrow)]
    obtain ⟨hfits'', hagree', hall⟩ := ih h hfits' hndRest
      (fun p hp => hlen p (by simp [hp])) hemptyRest
    refine ⟨hfits'', hagree.append hagree', ?_⟩
    intro p hp
    rcases List.mem_cons.1 hp with rfl | hp
    · -- later parts leave these rows alone
      exact ⟨rows, hrows, hholds.of_agreeOff hagree' fun row hrow hr => hdisj row hrow row hr rfl⟩
    · exact hall p hp

/-- Expressions placed on different rows of an empty block are all there in the end. -/
theorem interleave_eq_ok [Zero α] {v : Variable} {nrows : Nat}
    {parts : List (AffineExpr α × List Nat)} {block : RowBlock α}
    (h : interleave v nrows parts = .ok block) (hnd : (parts.flatMap Prod.snd).Nodup)
    (hlen : ∀ part ∈ parts, part.2.length = part.1.size) :
    block.Fits nrows v.size ∧
      ∀ part ∈ parts, ∃ rows, part.1.rowsOver v = .ok rows ∧ block.Holds rows part.2 := by
  have hzeros : (zeros nrows v.size : RowBlock α).Fits nrows v.size :=
    ⟨rfl, rfl, by simp [zeros, DenseVector.zeros]⟩
  obtain ⟨hfits, -, hall⟩ := foldlM_place_eq_ok h hzeros hnd hlen fun _ _ _ => rfl
  exact ⟨hfits, hall⟩

end RowBlock

end Conic
