import Conic.Proofs.Recovery

/-!
# Dual values of any segments

Segments need not come from a problem: their sizes are free, also those of exponential cones, and an
identifier may occur in several of them. A vector as long as the segments together is cut all the
same (`duals_eq_ok`). Each piece is read in the order of the arguments, where what is left over
after the last full triple becomes zero (`ExpOrder.Reads`), and under each identifier stands the
value of the last segment that has it (`Segment.CutsInto`).
-/

namespace Conic

/-! ## Last entries of a list -/

namespace SortedMap

variable {κ ν : Type} [Ord κ] [Std.TransOrd κ]

theorem joined_last (vs : List ν) : joined (fun _ last => last) vs = vs.getLast? := by
  cases vs with
  | nil => rfl
  | cons v vs =>
    rw [joined, List.getLast?_cons]
    congr 1
    induction vs generalizing v with
    | nil => rfl
    | cons w vs ih => rw [List.foldl_cons, ih, List.getLast?_cons, Option.getD_some]

theorem find?_ofList_eq_getLast? (l : List (κ × ν)) (k : κ) :
    (ofList l).find? k = (valuesAt k l).getLast? := by
  rw [ofList, find?_ofListWith, joined_last]

variable [Std.LawfulEqOrd κ]

theorem mem_keys_ofList {l : List (κ × ν)} {k : κ} : k ∈ (ofList l).keys ↔ k ∈ l.map Prod.fst := by
  rw [mem_keys_iff, Option.isSome_iff_exists]
  constructor
  · rintro ⟨v, hv⟩
    exact List.mem_map.2 ⟨(k, v), mem_of_find?_ofList hv, rfl⟩
  · exact exists_find?_ofList

/-- An entry counts if no later one has its key. -/
theorem find?_ofList_of_last {l : List (κ × ν)} {i : Nat} {k : κ} {v : ν} (h : l[i]? = some (k, v))
    (hlast : k ∉ (l.drop (i + 1)).map Prod.fst) : (ofList l).find? k = some v := by
  obtain ⟨hi, hget⟩ := List.getElem?_eq_some_iff.1 h
  have hsplit : l = l.take i ++ (k, v) :: l.drop (i + 1) := by
    rw [← hget, List.getElem_cons_drop, List.take_append_drop]
  have hlater : valuesAt k (l.drop (i + 1)) = [] := by
    rw [List.eq_nil_iff_forall_not_mem]
    exact fun w hw => hlast (List.mem_map.2 ⟨(k, w), mem_valuesAt.1 hw, rfl⟩)
  have hself : compare k k = .eq := compare_eq_iff.2 rfl
  rw [find?_ofList_eq_getLast?, hsplit, valuesAt, List.filterMap_append, List.filterMap_cons]
  simp only [hself, if_true]
  rw [show (l.drop (i + 1)).filterMap _ = valuesAt k (l.drop (i + 1)) from rfl, hlater]
  exact List.getLast?_concat

end SortedMap

variable {α : Type} [Zero α]

/-! ## Triples -/

/-- `d` has the full triples of `v` in the order of the arguments, and zeros for what is left
over. -/
structure ExpOrder.Reads (o : ExpOrder) (v d : DenseVector α) : Prop where
  length_eq : d.length = v.length
  triple : ∀ j i, i < 3 → 3 * j + 3 ≤ v.length → d[3 * j + i]? = v[3 * j + o.rows.getD i 0]?
  leftover : ∀ i, 3 * (v.length / 3) ≤ i → i < v.length → d[i]? = some 0

namespace ExpOrder

theorem reads_zeros {o : ExpOrder} {v : DenseVector α} (h : v.length < 3) :
    o.Reads v (DenseVector.zeros v.length) where
  length_eq := List.length_replicate
  triple := fun j i _ hj => by omega
  leftover := fun i _ hi => List.getElem?_replicate_of_lt hi

theorem Reads.cons {o : ExpOrder} (ho : o.InRange) {v d : DenseVector α} (h : o.Reads v d)
    (a b c : α) :
    o.Reads (a :: b :: c :: v) (o.rows.map (DenseVector.entry [a, b, c]) ++ d) := by
  obtain ⟨hlen, htriple, hleft⟩ := h
  obtain ⟨hx, hy, hz⟩ := ho
  have hlater : ∀ (p q r : α) (w : DenseVector α) (n : Nat), (p :: q :: r :: w)[n + 3]? = w[n]? :=
    fun _ _ _ _ _ => rfl
  refine ⟨by simp [rows, hlen], fun j i hi hj => ?_, fun i hi hlt => ?_⟩
  · cases j with
    | zero =>
      have hfirst : ∀ row < 3, some (DenseVector.entry [a, b, c] row) = (a :: b :: c :: v)[row]? :=
        fun row hrow => (DenseVector.some_entry hrow).trans (by
          rw [← List.getElem?_append_left hrow]
          rfl)
      rw [Nat.mul_zero, Nat.zero_add, Nat.zero_add]
      obtain rfl | rfl | rfl : i = 0 ∨ i = 1 ∨ i = 2 := by omega
      · exact hfirst o.x hx
      · exact hfirst o.y hy
      · exact hfirst o.z hz
    | succ j =>
      have hj : 3 * j + 3 ≤ v.length := by
        simp only [List.length_cons] at hj
        omega
      rw [show 3 * (j + 1) + i = 3 * j + i + 3 by omega,
        show 3 * (j + 1) + o.rows.getD i 0 = 3 * j + o.rows.getD i 0 + 3 by omega, hlater]
      exact htriple j i hi hj
  · simp only [List.length_cons] at hi hlt
    obtain ⟨i, rfl⟩ : ∃ k, i = k + 3 := ⟨i - 3, by omega⟩
    exact hleft i (by omega) (by omega)

/-- In an order whose rows are those of a triple, any vector can be read. -/
theorem exists_toArgs {o : ExpOrder} (ho : o.InRange) :
    ∀ v : DenseVector α, ∃ d, o.toArgs v = .ok d ∧ o.Reads v d
  | a :: b :: c :: rest => by
    obtain ⟨d, hd, hreads⟩ := exists_toArgs ho rest
    exact ⟨_, by rw [toArgs_cons ho, hd]; rfl, hreads.cons ho a b c⟩
  | [] => ⟨_, rfl, reads_zeros (Nat.lt_of_sub_eq_succ rfl)⟩
  | [a] => ⟨_, rfl, reads_zeros (Nat.lt_of_sub_eq_succ rfl)⟩
  | [a, b] => ⟨_, rfl, reads_zeros (Nat.lt_of_sub_eq_succ rfl)⟩

end ExpOrder

/-! ## Pieces -/

namespace Segment

/-- The number of entries that the segments before segment `k` take. -/
def start (segments : List Segment) (k : Nat) : Nat := ((segments.take k).map size).sum

theorem start_cons_succ (s : Segment) (rest : List Segment) (k : Nat) :
    start (s :: rest) (k + 1) = s.size + start rest k := by
  rw [start, List.take_succ_cons, List.map_cons, List.sum_cons, start]

/-- `d` is the value of a piece that is as long as the segment. -/
structure ReadsAs (s : Segment) (o : ExpOrder) (piece d : DenseVector α) : Prop where
  length_eq : piece.length = s.size
  plain : s.kind ≠ .exponential → d = piece
  triples : s.kind = .exponential → o.Reads piece d

/-- The dual values that segments cut out of a vector, piece after piece. There is one under each
identifier, that of the last segment which has it. -/
structure CutsInto (segments : List Segment) (o : ExpOrder) (v : DenseVector α)
    (duals : SortedMap ConstrId (DenseVector α)) : Prop where
  mem_keys : ∀ id, id ∈ duals.keys ↔ id ∈ segments.map Segment.id
  value : ∀ k (hk : k < segments.length), segments[k].id ∉ (segments.drop (k + 1)).map Segment.id →
    ∃ d, duals.find? segments[k].id = some d ∧
      segments[k].ReadsAs o ((v.drop (start segments k)).take segments[k].size) d

theorem exists_readsAs {o : ExpOrder} (ho : o.InRange) {s : Segment} {piece : DenseVector α}
    (hlen : piece.length = s.size) :
    ∃ d, (s.kind = .exponential → o.toArgs piece = .ok d) ∧ s.ReadsAs o piece d := by
  by_cases hkind : s.kind = .exponential
  · obtain ⟨d, hd, hreads⟩ := ExpOrder.exists_toArgs ho piece
    exact ⟨d, fun _ => hd, hlen, fun h => absurd hkind h, fun _ => hreads⟩
  · exact ⟨piece, fun h => absurd h hkind, hlen, fun _ => rfl, fun h => absurd h hkind⟩

/-- Cutting goes through all segments, and no piece is shorter than its segment. -/
theorem cut_eq_ok {o : ExpOrder} (ho : o.InRange) {segments : List Segment} {v : DenseVector α}
    (hlen : v.length = (segments.map size).sum) :
    ∃ pieces, cut o segments v = .ok pieces ∧ pieces.map Prod.fst = segments.map id ∧
      ∀ k (hk : k < segments.length), ∃ d, pieces[k]? = some (segments[k].id, d) ∧
        segments[k].ReadsAs o ((v.drop (start segments k)).take segments[k].size) d := by
  induction segments generalizing v with
  | nil => exact ⟨[], rfl, rfl, fun k hk => absurd hk (Nat.not_lt_zero k)⟩
  | cons s rest ih =>
    rw [List.map_cons, List.sum_cons] at hlen
    obtain ⟨pieces, hcut, hids, hpieces⟩ :=
      ih (v := v.drop s.size) (by rw [List.length_drop]; omega)
    have hpiece : (v.take s.size).length = s.size := by
      rw [List.length_take]
      omega
    obtain ⟨d, hd, hreads⟩ := exists_readsAs ho hpiece
    refine ⟨(s.id, d) :: pieces, ?_, by rw [List.map_cons, hids]; rfl, fun k hk => ?_⟩
    · rw [cut]
      split
      case isTrue hkind => exact bind_eq_ok.2 ⟨d, hd hkind, bind_eq_ok.2 ⟨pieces, hcut, rfl⟩⟩
      case isFalse hkind =>
        rw [hreads.plain hkind]
        exact bind_eq_ok.2 ⟨_, rfl, bind_eq_ok.2 ⟨pieces, hcut, rfl⟩⟩
    · cases k with
      | zero => exact ⟨d, rfl, hreads⟩
      | succ k =>
        rw [start_cons_succ, ← List.drop_drop]
        exact hpieces k (by simpa using hk)

theorem duals_eq_ok {o : ExpOrder} (ho : o.InRange) {segments : List Segment} {v : DenseVector α}
    (hlen : v.length = (segments.map size).sum) (what : ResultVector) :
    ∃ m, duals segments o what v = .ok m ∧ CutsInto segments o v m := by
  obtain ⟨pieces, hcut, hids, hpieces⟩ := cut_eq_ok ho hlen
  refine ⟨.ofList pieces, by rw [duals, if_pos hlen, hcut]; rfl, fun i => ?_, fun k hk hlast => ?_⟩
  · rw [SortedMap.mem_keys_ofList, hids]
  · obtain ⟨d, hd, hreads⟩ := hpieces k hk
    refine ⟨d, SortedMap.find?_ofList_of_last hd ?_, hreads⟩
    rwa [List.map_drop, hids, ← List.map_drop]

/-! ## Two vectors one after the other -/

theorem start_add_size_le {segments : List Segment} {k : Nat} (hk : k < segments.length) :
    start segments k + segments[k].size ≤ (segments.map size).sum := sum_take_add_le hk size

theorem start_append (ss ts : List Segment) (k : Nat) :
    start (ss ++ ts) (ss.length + k) = (ss.map size).sum + start ts k := by
  rw [start, List.take_length_add_append, List.map_append, List.sum_append, start]

/-- The values of two vectors, where those of the second one replace those of the first one, are the
values of both vectors together. -/
theorem CutsInto.append {ss ts : List Segment} {o : ExpOrder} {v w : DenseVector α}
    {m n : SortedMap ConstrId (DenseVector α)} (hv : v.length = (ss.map size).sum)
    (hm : CutsInto ss o v m) (hn : CutsInto ts o w n) :
    CutsInto (ss ++ ts) o (v ++ w) (m.mergeWith (fun _ later => later) n) := by
  have hfind : ∀ id,
      (m.mergeWith (fun _ later => later) n).find? id = (n.find? id).or (m.find? id) := by
    intro id
    rw [SortedMap.find?_mergeWith]
    cases m.find? id <;> cases n.find? id <;> rfl
  refine ⟨fun id => ?_, fun k hk hlast => ?_⟩
  · rw [List.map_append, List.mem_append, ← hm.mem_keys, ← hn.mem_keys, SortedMap.mem_keys_iff,
      SortedMap.mem_keys_iff, SortedMap.mem_keys_iff, hfind, Option.isSome_or, Bool.or_eq_true,
      or_comm]
  · by_cases hks : k < ss.length
    · -- a segment of the first vector, whose identifier the second one does not have
      rw [List.getElem_append_left hks] at hlast ⊢
      rw [List.drop_append_of_le_length hks, List.map_append, List.mem_append, not_or] at hlast
      obtain ⟨d, hd, hreads⟩ := hm.value k hks hlast.1
      have hnone : n.find? ss[k].id = none := by
        rw [← Option.not_isSome_iff_eq_none, ← SortedMap.mem_keys_iff, hn.mem_keys]
        exact hlast.2
      have hpiece : ((v ++ w).drop (start (ss ++ ts) k)).take ss[k].size =
          (v.drop (start ss k)).take ss[k].size := by
        have hinside := start_add_size_le hks
        rw [start, List.take_append_of_le_length (Nat.le_of_lt hks), ← start,
          List.drop_append_of_le_length (by omega),
          List.take_append_of_le_length (by rw [List.length_drop]; omega)]
      exact ⟨d, by rw [hfind, hnone, hd]; rfl, by rw [hpiece]; exact hreads⟩
    · obtain ⟨k, rfl⟩ : ∃ j, k = ss.length + j := ⟨k - ss.length, by omega⟩
      have hkt : k < ts.length := by
        rw [List.length_append] at hk
        omega
      rw [List.getElem_append_right (Nat.le_add_right ..)] at hlast ⊢
      simp only [Nat.add_sub_cancel_left] at hlast ⊢
      rw [Nat.add_assoc, List.drop_length_add_append] at hlast
      obtain ⟨d, hd, hreads⟩ := hn.value k hkt hlast
      refine ⟨d, by rw [hfind, hd]; rfl, ?_⟩
      rwa [start_append, ← hv, List.drop_length_add_append]

end Segment

end Conic
