import Conic.Proofs.ConeProgram.ExpOrder
import Conic.Proofs.SparseMatrix.Stored
import Conic.Proofs.ConeProgram.Rows
import Conic.Recovery

/-!
# Reading duals back

The segments of a program cut a dual vector of the right length into one piece for each of them
(`cut_standard`, `getElem_pieces`). When no identifier occurs twice, the map of dual values holds
exactly these pieces (`find?_dualsOf`).
-/

namespace Conic

/-! ## Maps of lists without repeated keys -/

namespace SortedMap

variable {κ ν : Type} [Ord κ] [Std.LawfulEqOrd κ]

theorem mem_valuesAt {k : κ} {v : ν} {l : List (κ × ν)} : v ∈ valuesAt k l ↔ (k, v) ∈ l := by
  rw [valuesAt, List.mem_filterMap]
  constructor
  · rintro ⟨⟨j, w⟩, he, h⟩
    split at h
    · rename_i hk
      cases h
      rw [compare_eq_iff.1 hk]
      exact he
    · cases h
  · intro h
    exact ⟨(k, v), h, by rw [if_pos (compare_eq_iff.2 rfl)]⟩

omit [Ord κ] [Std.LawfulEqOrd κ] in
theorem joined_mem {f : ν → ν → ν} (hf : ∀ a b, f a b = b) {l : List ν} {v : ν}
    (h : joined f l = some v) : v ∈ l := by
  match l, h with
  | a :: l, h =>
    have hlast : l.foldl f a ∈ a :: l := by
      clear h
      induction l generalizing a with
      | nil => simp
      | cons b l ih =>
        rw [List.foldl_cons, hf]
        exact List.mem_cons_of_mem _ (ih b)
    simp only [joined, Option.some.injEq] at h
    rw [← h]
    exact hlast

theorem mem_of_find?_ofList [Std.TransOrd κ] {l : List (κ × ν)} {k : κ} {v : ν}
    (h : (ofList l).find? k = some v) : (k, v) ∈ l := by
  rw [ofList, find?_ofListWith] at h
  exact mem_valuesAt.1 (joined_mem (fun _ _ => rfl) h)

/-- A key of the list has a value. -/
theorem exists_find?_ofList [Std.TransOrd κ] {l : List (κ × ν)} {k : κ} (h : k ∈ l.map Prod.fst) :
    ∃ v, (ofList l).find? k = some v := by
  obtain ⟨⟨k, v⟩, hmem, rfl⟩ := List.mem_map.1 h
  rw [ofList, find?_ofListWith]
  match hvalues : valuesAt k l, mem_valuesAt.2 hmem with
  | a :: vs, _ => exact ⟨_, rfl⟩

/-- The map of a list without repeated keys has the entries of the list. -/
theorem find?_ofList [Std.TransOrd κ] {l : List (κ × ν)} (hnd : (l.map Prod.fst).Nodup) {k : κ}
    {v : ν} : (ofList l).find? k = some v ↔ (k, v) ∈ l := by
  refine ⟨mem_of_find?_ofList, fun h => ?_⟩
  obtain ⟨w, hw⟩ := exists_find?_ofList (List.mem_map_of_mem h)
  -- one key has one value
  have hvw : (k, w) = (k, v) := List.inj_on_of_nodup_map hnd (mem_of_find?_ofList hw) h rfl
  cases hvw
  exact hw

omit [Std.LawfulEqOrd κ] in
/-- Found under every key, the values are found in the order of the keys. -/
theorem map_find?_eq {m : SortedMap κ ν} {keys : List κ} {values : List ν}
    (hlen : keys.length = values.length) (h : ∀ e ∈ keys.zip values, m.find? e.1 = some e.2) :
    keys.map m.find? = values.map some := by
  induction keys generalizing values with
  | nil =>
    obtain rfl : values = [] := List.length_eq_zero_iff.1 hlen.symm
    rfl
  | cons k keys ih =>
    match values, hlen with
    | v :: values, hlen =>
      rw [List.zip_cons_cons, List.forall_mem_cons] at h
      rw [List.map_cons, List.map_cons, h.1, ih (by simpa using hlen) h.2]

/-- The map of a list without repeated keys has the values of the list under the keys, in their
order. -/
theorem map_find?_ofList [Std.TransOrd κ] {keys : List κ} {values : List ν} (hnd : keys.Nodup)
    (hlen : keys.length = values.length) :
    keys.map (ofList (keys.zip values)).find? = values.map some := by
  refine map_find?_eq hlen fun e he => (find?_ofList ?_).2 he
  rwa [List.map_fst_zip hlen.le]

end SortedMap

/-! ## Cutting -/

namespace Segment

variable {α : Type}

/-- A piece of a dual vector, back in the order of the arguments. -/
def reading (s : Segment) (piece : DenseVector α) : DenseVector α :=
  if s.kind = .exponential then swapTriples piece else piece

/-- The pieces of a dual vector by identifier. -/
def pieces : List Segment → DenseVector α → List (ConstrId × DenseVector α)
  | [], _ => []
  | s :: rest, v => (s.id, s.reading (v.take s.size)) :: pieces rest (v.drop s.size)

@[simp] theorem length_reading (s : Segment) (piece : DenseVector α) :
    (s.reading piece).length = piece.length := by
  rw [reading]
  split <;> simp

theorem map_fst_pieces (segments : List Segment) (v : DenseVector α) :
    (pieces segments v).map Prod.fst = segments.map Segment.id := by
  induction segments generalizing v with
  | nil => rfl
  | cons s rest ih => rw [pieces, List.map_cons, List.map_cons, ih]

/-- Cut from a vector of the right length, a piece is as long as its segment. -/
theorem length_of_mem_pieces {segments : List Segment} {v : DenseVector α}
    (hlen : v.length = (segments.map size).sum) {id : ConstrId} {d : DenseVector α}
    (h : (id, d) ∈ pieces segments v) : ∃ s ∈ segments, s.id = id ∧ d.length = s.size := by
  induction segments generalizing v with
  | nil => cases h
  | cons s rest ih =>
    rw [List.map_cons, List.sum_cons] at hlen
    rw [pieces, List.mem_cons] at h
    rcases h with h | h
    · cases h
      exact ⟨s, List.mem_cons_self, rfl, by rw [length_reading, List.length_take]; omega⟩
    · obtain ⟨t, ht, hid, hd⟩ := ih (by rw [List.length_drop]; omega) h
      exact ⟨t, List.mem_cons_of_mem _ ht, hid, hd⟩

/-- Piece `k` begins after the segments before. -/
theorem getElem_pieces {segments : List Segment} (v : DenseVector α) {k : Nat}
    (hk : k < segments.length) :
    (pieces segments v)[k]? = some (segments[k].id,
      segments[k].reading ((v.drop ((segments.take k).map size).sum).take segments[k].size)) := by
  induction segments generalizing v k with
  | nil => cases hk
  | cons s rest ih =>
    cases k with
    | zero => rfl
    | succ k =>
      rw [pieces, List.getElem?_cons_succ, ih (v.drop s.size) (by simpa using hk)]
      simp only [List.take_succ_cons, List.map_cons, List.sum_cons, List.drop_drop,
        List.getElem_cons_succ]

theorem cut_standard [Zero α] {segments : List Segment} {v : DenseVector α}
    (hlen : v.length = (segments.map size).sum)
    (htriple : ∀ s ∈ segments, s.kind = .exponential → 3 ∣ s.size) :
    cut .standard segments v = .ok (pieces segments v) := by
  induction segments generalizing v with
  | nil => rfl
  | cons s rest ih =>
    rw [List.map_cons, List.sum_cons] at hlen
    have htake : (v.take s.size).length = s.size := by
      rw [List.length_take]
      omega
    have hrest := ih (v := v.drop s.size) (by rw [List.length_drop]; omega)
      fun t ht => htriple t (by simp [ht])
    rw [cut, pieces, reading]
    split
    case isTrue hexp =>
      have hread := toArgs_standard (v := v.take s.size) (by
        rw [htake]
        exact htriple s (by simp) hexp)
      exact bind_eq_ok.2 ⟨_, hread, bind_eq_ok.2 ⟨_, hrest, rfl⟩⟩
    case isFalse => exact bind_eq_ok.2 ⟨_, rfl, bind_eq_ok.2 ⟨_, hrest, rfl⟩⟩

theorem duals_standard [Zero α] {segments : List Segment} {v : DenseVector α}
    (hlen : v.length = (segments.map size).sum)
    (htriple : ∀ s ∈ segments, s.kind = .exponential → 3 ∣ s.size) (what : ResultVector) :
    duals segments .standard what v = .ok (.ofList (pieces segments v)) := by
  rw [duals, if_pos hlen, cut_standard hlen htriple]
  rfl

end Segment

/-! ## Solutions -/

/-- The exit code stands for a status that comes with a point and its multipliers. -/
def RawResult.HasSolution {α : Type} (raw : RawResult α) : Prop :=
  ∃ status, SolveStatus.ofExitCode raw.exitCode = .ok status ∧ status.hasSolution

/-- The vectors of a result are as long as a program with this recovery wants them. -/
structure RawResult.Fits {α : Type} (raw : RawResult α) (r : Recovery α) : Prop where
  primal : raw.x.length = r.varSize
  equality_duals : raw.y.length = (r.equalities.map Segment.size).sum
  cone_duals : raw.z.length = (r.cones.map Segment.size).sum

/-- The dual values of two runs of segments; a piece of the second run counts under its
identifier. -/
def Recovery.dualsOf {α : Type} (r : Recovery α) (y z : DenseVector α) :
    SortedMap ConstrId (DenseVector α) :=
  (SortedMap.ofList (Segment.pieces r.equalities y)).mergeWith (fun _ later => later)
    (.ofList (Segment.pieces r.cones z))

/-- A fitting result with a solution is read back: its point, its cost with the constant of the
objective added, and the pieces of its duals. -/
theorem Recovery.solution_eq_ok {α : Type} [Zero α] [Add α] {r : Recovery α} {raw : RawResult α}
    (hsol : raw.HasSolution) (hfits : raw.Fits r)
    (htriple : ∀ s ∈ r.equalities ++ r.cones, s.kind = .exponential → 3 ∣ s.size) :
    ∃ s, r.solution raw = .ok s ∧ s.optimalValue = some (raw.primalCost + r.offset) ∧
      s.values = some (.singleton r.varId raw.x) ∧ s.duals = some (r.dualsOf raw.y raw.z) := by
  obtain ⟨status, hstatus, hpresent⟩ := hsol
  have heq := Segment.duals_standard hfits.equality_duals
    (fun s hs => htriple s (List.mem_append_left _ hs)) .equalityDuals
  have hcone := Segment.duals_standard hfits.cone_duals
    (fun s hs => htriple s (List.mem_append_right _ hs)) .coneDuals
  refine ⟨⟨status, some (raw.primalCost + r.offset), some (.singleton r.varId raw.x),
    some (r.dualsOf raw.y raw.z), ⟨raw.solveTime, raw.setupTime, raw.iterations⟩⟩, ?_, rfl, rfl,
    rfl⟩
  rw [solution, hstatus]
  show (if status.hasSolution then _ else _) = _
  rw [if_pos hpresent, if_pos hfits.primal, heq, hcone]
  rfl

section Status

variable {α : Type} [Zero α] [Add α] {r : Recovery α} {raw : RawResult α}

/-- A status without a solution needs no vectors. -/
theorem Recovery.solution_of_not_hasSolution {status : SolveStatus}
    (hstatus : SolveStatus.ofExitCode raw.exitCode = .ok status) (h : ¬ status.hasSolution) :
    r.solution raw = .ok (.failure status ⟨raw.solveTime, raw.setupTime, raw.iterations⟩) := by
  rw [solution, hstatus]
  exact if_neg h

/-- A solution has the status that the exit code stands for. -/
theorem Recovery.status_of_solution {s : Solution α} (h : r.solution raw = .ok s) :
    SolveStatus.ofExitCode raw.exitCode = .ok s.status := by
  rw [solution] at h
  obtain ⟨status, hstatus, h⟩ := bind_eq_ok.1 h
  split at h
  case isFalse =>
    cases h
    exact hstatus
  case isTrue =>
    split at h
    case isFalse => cases h
    case isTrue =>
      obtain ⟨_, -, h⟩ := bind_eq_ok.1 h
      obtain ⟨_, -, h⟩ := bind_eq_ok.1 h
      cases h
      exact hstatus

end Status

/-- Every identifier has a dual value, which is one of the pieces under it. -/
theorem Recovery.exists_find?_dualsOf {α : Type} {r : Recovery α} {id : ConstrId}
    (h : id ∈ (r.equalities ++ r.cones).map Segment.id) (y z : DenseVector α) :
    ∃ d, (r.dualsOf y z).find? id = some d ∧
      (id, d) ∈ Segment.pieces r.equalities y ++ Segment.pieces r.cones z := by
  rw [List.map_append, ← Segment.map_fst_pieces r.equalities y, ← Segment.map_fst_pieces r.cones z,
    List.mem_append] at h
  rw [dualsOf, SortedMap.find?_mergeWith]
  cases hr : (SortedMap.ofList (Segment.pieces r.cones z)).find? id with
  | some b =>
    refine ⟨b, ?_, List.mem_append_right _ (SortedMap.mem_of_find?_ofList hr)⟩
    cases (SortedMap.ofList (Segment.pieces r.equalities y)).find? id <;> rfl
  | none =>
    have hleft : id ∈ (Segment.pieces r.equalities y).map Prod.fst := by
      refine h.resolve_right fun hcone => ?_
      obtain ⟨b, hb⟩ := SortedMap.exists_find?_ofList hcone
      rw [hr] at hb
      cases hb
    obtain ⟨a, ha⟩ := SortedMap.exists_find?_ofList hleft
    rw [ha]
    exact ⟨a, rfl, List.mem_append_left _ (SortedMap.mem_of_find?_ofList ha)⟩

/-- When no identifier occurs twice, the dual values are the pieces. -/
theorem Recovery.find?_dualsOf {α : Type} {r : Recovery α}
    (hnd : ((r.equalities ++ r.cones).map Segment.id).Nodup) {y z d : DenseVector α}
    {id : ConstrId} : (r.dualsOf y z).find? id = some d ↔
      (id, d) ∈ Segment.pieces r.equalities y ++ Segment.pieces r.cones z := by
  rw [List.map_append, List.nodup_append] at hnd
  obtain ⟨hndEq, hndCone, hdisj⟩ := hnd
  have hleft : ∀ d, (SortedMap.ofList (Segment.pieces r.equalities y)).find? id = some d ↔
      (id, d) ∈ Segment.pieces r.equalities y := fun d =>
    SortedMap.find?_ofList (by rw [Segment.map_fst_pieces]; exact hndEq)
  have hright : ∀ d, (SortedMap.ofList (Segment.pieces r.cones z)).find? id = some d ↔
      (id, d) ∈ Segment.pieces r.cones z := fun d =>
    SortedMap.find?_ofList (by rw [Segment.map_fst_pieces]; exact hndCone)
  rw [dualsOf, SortedMap.find?_mergeWith, List.mem_append, ← hleft, ← hright]
  -- no identifier is in both maps
  cases hl : (SortedMap.ofList (Segment.pieces r.equalities y)).find? id with
  | none => simp
  | some a =>
    cases hr : (SortedMap.ofList (Segment.pieces r.cones z)).find? id with
    | none => simp
    | some b =>
      have hidl := List.mem_map_of_mem (f := Prod.fst) ((hleft a).1 hl)
      have hidr := List.mem_map_of_mem (f := Prod.fst) ((hright b).1 hr)
      rw [Segment.map_fst_pieces] at hidl hidr
      exact absurd rfl (hdisj _ hidl _ hidr)

end Conic
