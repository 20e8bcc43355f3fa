import Conic.Proofs.ConeProgram.TripleOrders
import Conic.Proofs.Outcome

/-!
# Putting dual values together again

Nothing is lost when a vector is cut: if every segment has an identifier of its own and the
exponential ones are made of full triples, the dual values one after the other, those of exponential
cones written back to the order of the rows, are the vector that was cut (`Segment.joined_eq_some`).
-/

namespace Conic

variable {α : Type}

namespace Segment

/-- A vector is made up of its slices. -/
theorem mapM_slices {segments : List Segment} {v : DenseVector α}
    (hlen : v.length = (segments.map size).sum) {f : Segment → Option (DenseVector α)}
    (h : ∀ k (hk : k < segments.length),
      f segments[k] = some ((v.drop (start segments k)).take segments[k].size)) :
    ∃ pieces, segments.mapM f = some pieces ∧ pieces.flatten = v := by
  induction segments generalizing v with
  | nil => exact ⟨[], rfl, (List.length_eq_zero_iff.1 hlen).symm⟩
  | cons s rest ih =>
    rw [List.map_cons, List.sum_cons] at hlen
    have hrest : ∀ k (hk : k < rest.length),
        f rest[k] = some (((v.drop s.size).drop (start rest k)).take rest[k].size) := by
      intro k hk
      rw [List.drop_drop, ← start_cons_succ]
      exact h (k + 1) (Nat.succ_lt_succ hk)
    obtain ⟨pieces, hpieces, hflat⟩ := ih (by rw [List.length_drop]; omega) hrest
    have hfirst : f s = some (v.take s.size) := h 0 (Nat.zero_lt_succ _)
    refine ⟨v.take s.size :: pieces, ?_, ?_⟩
    · rw [List.mapM_cons, hfirst, hpieces]
      rfl
    · rw [List.flatten_cons, hflat, List.take_append_drop]

variable [Zero α]

/-- The entries of a segment of which `d` is the value. -/
def toRows (s : Segment) (o : ExpOrder) (d : DenseVector α) : Except Error (DenseVector α) :=
  if s.kind = .exponential then o.toRows d else .ok d

/-- The entries of all segments, if each one has a value. -/
def joined (segments : List Segment) (o : ExpOrder) (duals : SortedMap ConstrId (DenseVector α)) :
    Option (DenseVector α) := do
  let pieces ← segments.mapM fun s => do (s.toRows o (← duals.find? s.id)).toOption
  return pieces.flatten

/-- A value is written back to the piece it was read off, unless something was left over. -/
theorem toRows_of_readsAs {s : Segment} {o : ExpOrder} (ho : o.IsPermutation)
    (hs : s.kind = .exponential → 3 ∣ s.size) {piece d : DenseVector α} (h : s.ReadsAs o piece d) :
    s.toRows o d = .ok piece := by
  rw [toRows]
  split
  case isTrue hkind =>
    have hfull : piece.fullTriples = piece :=
      DenseVector.fullTriples_of_dvd (by rw [h.length_eq]; exact hs hkind)
    rw [ExpOrder.toRows_eq_ok ho, ← hfull]
    exact (h.triples hkind).writes ho.inRange
  case isFalse hkind => rw [h.plain hkind]

/-- Every identifier stands for the only segment that has it, and its value for the slice of that
segment. -/
theorem joined_eq_some {segments : List Segment} {o : ExpOrder} (ho : o.IsPermutation)
    (hids : (segments.map id).Nodup) (hsizes : ∀ s ∈ segments, s.kind = .exponential → 3 ∣ s.size)
    {v : DenseVector α} (hlen : v.length = (segments.map size).sum)
    {duals : SortedMap ConstrId (DenseVector α)} (h : CutsInto segments o v duals) :
    joined segments o duals = some v := by
  have hlast : ∀ k (hk : k < segments.length), segments[k].id ∉ (segments.drop (k + 1)).map id := by
    intro k hk
    have hlater := hids.sublist (List.drop_sublist k _)
    rw [List.drop_eq_getElem_cons (by simpa using hk), List.nodup_cons, List.getElem_map] at hlater
    rw [List.map_drop]
    exact hlater.1
  have hpiece : ∀ k (hk : k < segments.length),
      (do (segments[k].toRows o (← duals.find? segments[k].id)).toOption) =
        some ((v.drop (start segments k)).take segments[k].size) := by
    intro k hk
    obtain ⟨d, hd, hreads⟩ := h.value k hk (hlast k hk)
    rw [hd]
    show (segments[k].toRows o d).toOption = _
    rw [toRows_of_readsAs ho (hsizes _ (List.getElem_mem hk)) hreads]
    rfl
  obtain ⟨pieces, hpieces, hflat⟩ :=
    mapM_slices (f := fun s => do (s.toRows o (← duals.find? s.id)).toOption) hlen hpiece
  rw [joined, hpieces, ← hflat]
  rfl

/-- Cutting a vector, for segments of any kinds and sizes, with or without repeated identifiers. It
succeeds exactly if the vector is as long as the segments together, and says otherwise what the two
lengths are. What is under the identifiers are the pieces of the segments (`CutsInto`). If no
identifier is repeated, the order is a permutation and exponential segments are made of full
triples, the pieces can be put together again. -/
theorem duals_classified {o : ExpOrder} (ho : o.InRange) (segments : List Segment)
    (what : ResultVector) (v : DenseVector α) :
    ((∃ m, duals segments o what v = .ok m) ↔ v.length = (segments.map size).sum) ∧
    (∀ fault, duals segments o what v = .error fault ↔ v.length ≠ (segments.map size).sum ∧
      fault = .dimensionMismatch what (segments.map size).sum v.length) ∧
    ∀ m, duals segments o what v = .ok m → CutsInto segments o v m ∧
      ((segments.map id).Nodup → o.IsPermutation →
        (∀ s ∈ segments, s.kind = .exponential → 3 ∣ s.size) → joined segments o m = some v) := by
  by_cases hlen : v.length = (segments.map size).sum
  · obtain ⟨m, hm, hcuts⟩ := duals_eq_ok ho hlen what
    rw [hm]
    refine ⟨⟨fun _ => hlen, fun _ => ⟨m, rfl⟩⟩, fun fault => ⟨nofun, fun h => absurd hlen h.1⟩, ?_⟩
    rintro m ⟨⟩
    exact ⟨hcuts, fun hids hperm hsizes => joined_eq_some hperm hids hsizes hlen hcuts⟩
  · rw [duals_of_length_ne hlen]
    refine ⟨⟨nofun, fun h => absurd h hlen⟩, fun fault => ?_, nofun⟩
    constructor
    · rintro ⟨⟩
      exact ⟨hlen, rfl⟩
    · rintro ⟨-, rfl⟩
      rfl

/-- The first list repeats an identifier and has an exponential segment of four entries, the second
one can be put together again. -/
theorem ragged_and_whole :
    let o : ExpOrder := ⟨1, 2, 0⟩
    let ragged : List Segment := [⟨⟨0⟩, .zero, 1⟩, ⟨⟨1⟩, .exponential, 4⟩, ⟨⟨0⟩, .nonpos, 2⟩]
    let whole : List Segment := [⟨⟨0⟩, .zero, 1⟩, ⟨⟨1⟩, .exponential, 3⟩, ⟨⟨2⟩, .nonpos, 2⟩]
    o.InRange ∧
      (∃ m, duals ragged o .equalityDuals ([1, 2, 3, 4, 5, 6, 7] : DenseVector Int) = .ok m ∧
        CutsInto ragged o [1, 2, 3, 4, 5, 6, 7] m ∧
        m.find? ⟨0⟩ = some [6, 7] ∧ m.find? ⟨1⟩ = some [3, 4, 2, 0]) ∧
      (∃ m, duals whole o .equalityDuals ([1, 2, 3, 4, 5, 6] : DenseVector Int) = .ok m ∧
        m.find? ⟨1⟩ = some [3, 4, 2] ∧ joined whole o m = some [1, 2, 3, 4, 5, 6]) := by
  intro o ragged whole
  have ho : o.InRange := by decide
  refine ⟨ho, ⟨_, rfl, ?_, by decide, by decide⟩, ⟨_, rfl, by decide, ?_⟩⟩
  · exact ((duals_classified ho ragged .equalityDuals [1, 2, 3, 4, 5, 6, 7]).2.2 _ rfl).1
  · exact ((duals_classified ho whole .equalityDuals [1, 2, 3, 4, 5, 6]).2.2 _ rfl).2 (by decide)
      (by decide) (by decide)

end Segment

end Conic
