import Conic.SortedMap

/-!
# Laws of sorted maps

The list of a sorted map has each key once, so a look-up and the list say the same. A value that is
put in is found at its key, and the other keys keep theirs (`find?_insert`).
-/

namespace Conic

namespace SortedMap

variable {κ ν : Type} [Ord κ]

theorem compare_eq_iff [Std.LawfulEqOrd κ] {j k : κ} : compare j k = .eq ↔ j = k :=
  ⟨Std.LawfulEqCmp.eq_of_compare, fun h => h ▸ Std.ReflCmp.compare_self⟩

/-- A sorted map has at most one value at a key. -/
theorem valuesAt_entries [Std.TransOrd κ] (m : SortedMap κ ν) (k : κ) :
    valuesAt k m.entries = (m.find? k).toList := by
  obtain ⟨l, hl⟩ := m
  show valuesAt k l = (lookup k l).toList
  induction l with
  | nil => rfl
  | cons e l ih =>
    obtain ⟨he, hl⟩ := List.pairwise_cons.1 hl
    by_cases hk : compare k e.1 = .eq
    · have hrest : lookup k l = none :=
        lookup_eq_none fun d hd => Std.TransCmp.lt_of_eq_of_lt hk (he d hd)
      simp only [valuesAt, List.filterMap_cons, hk, if_true, lookup]
      rw [show l.filterMap _ = valuesAt k l from rfl, ih hl, hrest]
      rfl
    · simp only [valuesAt, List.filterMap_cons, hk, if_false, lookup]
      exact ih hl

@[simp] theorem joined_toList (f : ν → ν → ν) (o : Option ν) : joined f o.toList = o := by
  cases o <;> rfl

theorem joined_toList_append (f : ν → ν → ν) (o p : Option ν) :
    joined f (o.toList ++ p.toList) = o.merge f p := by
  cases o <;> cases p <;> rfl

theorem find?_singleton_self [Std.LawfulEqOrd κ] (k : κ) (v : ν) :
    (singleton k v).find? k = some v := if_pos (compare_eq_iff.2 rfl)

theorem find?_singleton_ne [Std.LawfulEqOrd κ] {j k : κ} (h : k ≠ j) (v : ν) :
    (singleton j v).find? k = none := if_neg fun hk => h (compare_eq_iff.1 hk)

theorem find?_insert [Std.TransOrd κ] [Std.LawfulEqOrd κ] [DecidableEq κ] (m : SortedMap κ ν)
    (j k : κ) (v : ν) : (m.insert j v).find? k = if k = j then some v else m.find? k := by
  rw [insert, find?_mergeWith]
  split
  case isTrue h =>
    rw [h, find?_singleton_self]
    cases m.find? j <;> rfl
  case isFalse h =>
    rw [find?_singleton_ne h]
    cases m.find? k <;> rfl

/-- The keys are those at which a look-up succeeds. -/
theorem mem_keys_iff [Std.LawfulEqOrd κ] {m : SortedMap κ ν} {k : κ} :
    k ∈ m.keys ↔ (m.find? k).isSome := by
  rw [Option.isSome_iff_exists]
  constructor
  · intro h
    obtain ⟨⟨_, v⟩, he, rfl⟩ := List.mem_map.1 h
    exact ⟨v, find?_eq_some_iff.2 he⟩
  · rintro ⟨v, hv⟩
    exact List.mem_map.2 ⟨(k, v), find?_eq_some_iff.1 hv, rfl⟩

/-- No key stands in the list twice. -/
theorem nodup_keys [Std.ReflOrd κ] (m : SortedMap κ ν) : m.keys.Nodup := by
  refine List.pairwise_map.2 (m.sorted.imp fun {a b} hlt heq => ?_)
  have hself : compare b.1 b.1 = .eq := Std.ReflCmp.compare_self
  rw [heq, hself] at hlt
  cases hlt

end SortedMap

end Conic
