/-!
# Sorted maps

A finite map kept as the list of its entries, keys strictly ascending. There is one list for each
finite map, so equality of sorted maps is equality of the maps (`ext_find?`). Maps are put together
by `mergeWith`, which says what happens to the values at a common key; its effect on look-ups is
`find?_mergeWith`. A list of entries becomes a map by merging maps of one entry, always two of a
size, and `find?_ofListWith` says that the values at a key are then joined in the order of the list.
-/

namespace Conic

/-- A finite map from keys to values, listed by ascending key. -/
structure SortedMap (κ ν : Type) [Ord κ] where
  entries : List (κ × ν)
  sorted : entries.Pairwise fun a b => compare a.1 b.1 = .lt

namespace SortedMap

variable {κ ν μ : Type} [Ord κ]

/-! ## Entry lists -/

/-- The value at the first entry with this key. -/
def lookup (k : κ) : List (κ × ν) → Option ν
  | [] => none
  | (j, w) :: rest => if compare k j = .eq then some w else lookup k rest

theorem lookup_eq_none {k : κ} {l : List (κ × ν)} (h : ∀ e ∈ l, compare k e.1 = .lt) :
    lookup k l = none := by
  induction l with
  | nil => rfl
  | cons hd tl ih =>
    have hhd := h hd (by simp)
    simp only [lookup, hhd, reduceCtorEq, if_false]
    exact ih fun e he => h e (by simp [he])

/-! ## Maps -/

/-- The map without entries. -/
def empty : SortedMap κ ν := ⟨[], .nil⟩

instance : Inhabited (SortedMap κ ν) := ⟨empty⟩

/-- The value at a key, if there is one. -/
def find? (m : SortedMap κ ν) (k : κ) : Option ν := lookup k m.entries

/-- The keys, ascending. -/
def keys (m : SortedMap κ ν) : List κ := m.entries.map Prod.fst

/-- The values, by ascending key. -/
def values (m : SortedMap κ ν) : List ν := m.entries.map Prod.snd

/-- The number of keys. -/
def size (m : SortedMap κ ν) : Nat := m.entries.length

/-- Whether there is no key at all. -/
def isEmpty (m : SortedMap κ ν) : Bool := m.entries.isEmpty

/-- Apply a function to each value, the keys unchanged. -/
def mapValues (f : ν → μ) (m : SortedMap κ ν) : SortedMap κ μ where
  entries := m.entries.map fun e => (e.1, f e.2)
  sorted := List.pairwise_map.2 m.sorted

/-- The map with the one entry. -/
def singleton (k : κ) (v : ν) : SortedMap κ ν := ⟨[(k, v)], by simp⟩

@[simp] theorem keys_mapValues (f : ν → μ) (m : SortedMap κ ν) : (m.mapValues f).keys = m.keys := by
  simp [keys, mapValues, Function.comp_def]

theorem find?_mapValues (f : ν → μ) (m : SortedMap κ ν) (k : κ) :
    (m.mapValues f).find? k = (m.find? k).map f := by
  simp only [find?, mapValues]
  induction m.entries with
  | nil => rfl
  | cons e l ih => simp only [List.map_cons, lookup]; split <;> simp [ih]

@[simp] theorem values_mapValues (f : ν → μ) (m : SortedMap κ ν) :
    (m.mapValues f).values = m.values.map f := by
  simp [values, mapValues, Function.comp_def]

@[simp] theorem values_singleton (k : κ) (v : ν) : (singleton k v).values = [v] := rfl

/-! ## Merging -/

/-- Merge the list of first entry `e` with an ascending list, given how to merge the rest of it. -/
def mergeFrom (f : ν → ν → ν) (e : κ × ν) (mergeRest : List (κ × ν) → List (κ × ν)) :
    List (κ × ν) → List (κ × ν)
  | [] => e :: mergeRest []
  | d :: r =>
    match compare e.1 d.1 with
    | .lt => e :: mergeRest (d :: r)
    | .eq => (e.1, f e.2 d.2) :: mergeRest r
    | .gt => d :: mergeFrom f e mergeRest r

/-- Merge two ascending lists. Values `v` on the left and `w` on the right at one key become
`f v w`. -/
def merge (f : ν → ν → ν) : List (κ × ν) → List (κ × ν) → List (κ × ν)
  | [], r => r
  | e :: l, r => mergeFrom f e (merge f l) r

theorem mem_merge {f : ν → ν → ν} {e : κ × ν} {l r : List (κ × ν)} (h : e ∈ merge f l r) :
    e ∈ l ∨ e ∈ r ∨ ∃ a ∈ l, ∃ b ∈ r, e = (a.1, f a.2 b.2) := by
  induction l generalizing r with
  | nil => exact .inr (.inl h)
  | cons a l ih =>
    simp only [merge] at h
    induction r with
    | nil => grind [mergeFrom]
    | cons b r ihr =>
      simp only [mergeFrom] at h
      split at h <;> grind

variable [Std.TransOrd κ]

omit [Std.TransOrd κ] in
theorem lt_of_mem_merge {k : κ} {f : ν → ν → ν} {l r : List (κ × ν)}
    (hl : ∀ e ∈ l, compare k e.1 = .lt) (hr : ∀ e ∈ r, compare k e.1 = .lt) :
    ∀ e ∈ merge f l r, compare k e.1 = .lt := by
  intro e he
  rcases mem_merge he with h | h | ⟨a, ha, _, _, rfl⟩
  · exact hl e h
  · exact hr e h
  · exact hl a ha

theorem pairwise_merge (f : ν → ν → ν) {l r : List (κ × ν)}
    (hl : l.Pairwise fun a b => compare a.1 b.1 = .lt)
    (hr : r.Pairwise fun a b => compare a.1 b.1 = .lt) :
    (merge f l r).Pairwise fun a b => compare a.1 b.1 = .lt := by
  induction l generalizing r with
  | nil => exact hr
  | cons a l ih =>
    obtain ⟨ha, hl'⟩ := List.pairwise_cons.1 hl
    induction r with
    | nil => exact List.pairwise_cons.2 ⟨lt_of_mem_merge ha (by simp), ih hl' .nil⟩
    | cons b r ihr =>
      obtain ⟨hb, hr'⟩ := List.pairwise_cons.1 hr
      simp only [merge, mergeFrom]
      split
      case _ hlt =>
        refine List.pairwise_cons.2 ⟨lt_of_mem_merge ha ?_, ih hl' hr⟩
        exact List.forall_mem_cons.2 ⟨hlt, fun e he => Std.TransCmp.lt_trans hlt (hb e he)⟩
      case _ heq =>
        refine List.pairwise_cons.2 ⟨lt_of_mem_merge ha ?_, ih hl' hr'⟩
        exact fun e he => Std.TransCmp.lt_of_eq_of_lt heq (hb e he)
      case _ hgt =>
        have hba := Std.OrientedCmp.lt_of_gt hgt
        refine List.pairwise_cons.2 ⟨?_, ihr hr'⟩
        exact lt_of_mem_merge (List.forall_mem_cons.2
          ⟨hba, fun e he => Std.TransCmp.lt_trans hba (ha e he)⟩) hb

theorem lookup_merge (f : ν → ν → ν) (k : κ) {l r : List (κ × ν)}
    (hl : l.Pairwise fun a b => compare a.1 b.1 = .lt)
    (hr : r.Pairwise fun a b => compare a.1 b.1 = .lt) :
    lookup k (merge f l r) = Option.merge f (lookup k l) (lookup k r) := by
  induction l generalizing r with
  | nil => simp [merge, lookup]
  | cons a l ih =>
    obtain ⟨ha, hl'⟩ := List.pairwise_cons.1 hl
    induction r with
    | nil => simp only [merge, mergeFrom, lookup, ih hl' .nil]; split <;> simp
    | cons b r ihr =>
      obtain ⟨hb, hr'⟩ := List.pairwise_cons.1 hr
      simp only [merge, mergeFrom]
      split
      case _ hlt =>
        by_cases hk : compare k a.1 = .eq
        · have hkb : compare k b.1 = .lt := Std.TransCmp.lt_of_eq_of_lt hk hlt
          have hnone : lookup k (b :: r) = none := lookup_eq_none <|
            List.forall_mem_cons.2 ⟨hkb, fun e he => Std.TransCmp.lt_trans hkb (hb e he)⟩
          rw [hnone]
          simp [lookup, hk]
        · simp only [lookup, hk, if_false, ih hl' hr]
      case _ heq =>
        by_cases hk : compare k a.1 = .eq
        · simp [lookup, hk, Std.TransCmp.eq_trans hk heq]
        · have hkb : compare k b.1 ≠ .eq := fun h =>
            hk (Std.TransCmp.eq_trans h (Std.OrientedCmp.eq_symm heq))
          simp [lookup, hk, hkb, ih hl' hr']
      case _ hgt =>
        by_cases hk : compare k b.1 = .eq
        · have hka : compare k a.1 = .lt :=
            Std.TransCmp.lt_of_eq_of_lt hk (Std.OrientedCmp.lt_of_gt hgt)
          have hnone : lookup k (a :: l) = none := lookup_eq_none <|
            List.forall_mem_cons.2 ⟨hka, fun e he => Std.TransCmp.lt_trans hka (ha e he)⟩
          rw [hnone]
          simp [lookup, hk]
        · have := ihr hr'
          simp only [merge] at this
          simp [lookup, hk, this]

/-- Both maps together; values at a common key are joined by `f`, the left one first. -/
def mergeWith (f : ν → ν → ν) (m₁ m₂ : SortedMap κ ν) : SortedMap κ ν where
  entries := merge f m₁.entries m₂.entries
  sorted := pairwise_merge f m₁.sorted m₂.sorted

/-- Put `v` at `k`, replacing what was there. -/
def insert (m : SortedMap κ ν) (k : κ) (v : ν) : SortedMap κ ν :=
  m.mergeWith (fun _ new => new) (singleton k v)

theorem find?_mergeWith (f : ν → ν → ν) (m₁ m₂ : SortedMap κ ν) (k : κ) :
    (m₁.mergeWith f m₂).find? k = Option.merge f (m₁.find? k) (m₂.find? k) :=
  lookup_merge f k m₁.sorted m₂.sorted

/-- A property of all values lasts if the joining function keeps it. -/
theorem forall_values_mergeWith {P : ν → Prop} {f : ν → ν → ν} {m₁ m₂ : SortedMap κ ν}
    (hf : ∀ a b, P a → P b → P (f a b)) (h₁ : ∀ v ∈ m₁.values, P v) (h₂ : ∀ v ∈ m₂.values, P v) :
    ∀ v ∈ (m₁.mergeWith f m₂).values, P v := by
  simp only [values, List.forall_mem_map] at h₁ h₂ ⊢
  intro e he
  rcases mem_merge he with h | h | ⟨a, ha, b, hb, rfl⟩
  · exact h₁ e h
  · exact h₂ e h
  · exact hf _ _ (h₁ a ha) (h₂ b hb)

/-! ## Maps of lists of entries

The entries of a list are merged like the digits of a binary number are counted up: there is at most
one map of each size, and a second one of that size makes one of the next. -/

/-- The values at a key, in the order of a list. -/
def valuesAt (k : κ) (l : List (κ × ν)) : List ν :=
  l.filterMap fun e => if compare k e.1 = .eq then some e.2 else none

/-- The values of a list joined from the left; none if there are none. -/
def joined (f : ν → ν → ν) : List ν → Option ν
  | [] => none
  | v :: vs => some (vs.foldl f v)

/-- The values of two lists that are not empty, each given by its first value and the others. -/
def appendRuns (a b : ν × List ν) : ν × List ν := (a.1, a.2 ++ b.1 :: b.2)

/-- Put a map of later entries in front of maps of growing size. -/
def carry (m : SortedMap κ (ν × List ν)) :
    List (Option (SortedMap κ (ν × List ν))) → List (Option (SortedMap κ (ν × List ν)))
  | [] => [some m]
  | none :: rest => some m :: rest
  | some n :: rest => none :: carry (n.mergeWith appendRuns m) rest

/-- All these maps together. -/
def collapse : List (Option (SortedMap κ (ν × List ν))) → SortedMap κ (ν × List ν)
  | [] => empty
  | none :: rest => collapse rest
  | some m :: rest => (collapse rest).mergeWith appendRuns m

/-- The values of a list at each key, in the order of the list. -/
def runs (l : List (κ × ν)) : SortedMap κ (ν × List ν) :=
  collapse (l.foldl (fun maps e => carry (singleton e.1 (e.2, [])) maps) [])

/-- The map of a list of entries; the values at one key are joined from the left. -/
def ofListWith (f : ν → ν → ν) (l : List (κ × ν)) : SortedMap κ ν :=
  (runs l).mapValues fun run => run.2.foldl f run.1

/-- The map of a list of entries; of several values at one key the last counts. -/
def ofList (l : List (κ × ν)) : SortedMap κ ν := ofListWith (fun _ last => last) l

/-- The values that a map of runs has at a key. -/
def runAt (m : SortedMap κ (ν × List ν)) (k : κ) : List ν :=
  match m.find? k with
  | some run => run.1 :: run.2
  | none => []

theorem runAt_mergeWith (m n : SortedMap κ (ν × List ν)) (k : κ) :
    (m.mergeWith appendRuns n).runAt k = m.runAt k ++ n.runAt k := by
  simp only [runAt, find?_mergeWith]
  cases m.find? k <;> cases n.find? k <;> simp [appendRuns]

theorem runAt_collapse_carry (m : SortedMap κ (ν × List ν))
    (maps : List (Option (SortedMap κ (ν × List ν)))) (k : κ) :
    (collapse (carry m maps)).runAt k = (collapse maps).runAt k ++ m.runAt k := by
  induction maps generalizing m with
  | nil => simp [carry, collapse, runAt_mergeWith]
  | cons n maps ih =>
    cases n with
    | none => simp [carry, collapse, runAt_mergeWith]
    | some n => simp [carry, collapse, runAt_mergeWith, ih]

theorem runAt_runs (l : List (κ × ν)) (k : κ) : (runs l).runAt k = valuesAt k l := by
  have go : ∀ maps : List (Option (SortedMap κ (ν × List ν))),
      (collapse (l.foldl (fun maps e => carry (singleton e.1 (e.2, [])) maps) maps)).runAt k =
        (collapse maps).runAt k ++ valuesAt k l := by
    induction l with
    | nil => simp [valuesAt]
    | cons e l ih =>
      intro maps
      simp only [List.foldl_cons, ih, runAt_collapse_carry, valuesAt, List.filterMap_cons]
      by_cases hk : compare k e.1 = .eq <;> simp [runAt, find?, lookup, singleton, hk]
  exact go []

theorem find?_ofListWith (f : ν → ν → ν) (l : List (κ × ν)) (k : κ) :
    (ofListWith f l).find? k = joined f (valuesAt k l) := by
  rw [← runAt_runs, ofListWith, find?_mapValues, runAt]
  cases (runs l).find? k <;> simp [joined]

/-! ## Look-ups determine a map -/

omit [Std.TransOrd κ] in
theorem find?_eq_some_iff [Std.LawfulEqOrd κ] {m : SortedMap κ ν} {k : κ} {v : ν} :
    m.find? k = some v ↔ (k, v) ∈ m.entries := by
  obtain ⟨l, hl⟩ := m
  simp only [find?]
  induction l with
  | nil => simp [lookup]
  | cons hd tl ih =>
    obtain ⟨j, w⟩ := hd
    have ih := ih (List.pairwise_cons.1 hl).2
    by_cases hkj : compare k j = .eq
    · have hk : k = j := Std.LawfulEqCmp.eq_of_compare hkj
      subst hk
      have hnot : (k, v) ∉ tl := fun hmem => by
        have := (List.pairwise_cons.1 hl).1 _ hmem
        simp at this
      simp [lookup, hnot, eq_comm]
    · have hk : k ≠ j := fun h => hkj (h ▸ Std.ReflCmp.compare_self)
      simp [lookup, hkj, ih, hk]

theorem exists_of_mem_keys_ofListWith [Std.LawfulEqOrd κ] {f : ν → ν → ν} {l : List (κ × ν)} {k : κ}
    (h : k ∈ (ofListWith f l).keys) : ∃ e ∈ l, e.1 = k := by
  obtain ⟨⟨_, v⟩, he, rfl⟩ := List.mem_map.1 h
  have hv := find?_eq_some_iff.2 he
  rw [find?_ofListWith] at hv
  have hne : valuesAt _ l ≠ [] := fun h0 => by rw [h0] at hv; simp [joined] at hv
  obtain ⟨w, hw⟩ := List.exists_mem_of_ne_nil _ hne
  obtain ⟨e, hel, hew⟩ := List.mem_filterMap.1 hw
  split at hew
  case _ heq => exact ⟨e, hel, (Std.LawfulEqCmp.eq_of_compare heq).symm⟩
  case _ => simp at hew

/-- Two maps that answer every look-up alike are equal. -/
theorem ext_find? [Std.LawfulEqOrd κ] {m₁ m₂ : SortedMap κ ν}
    (h : ∀ k, m₁.find? k = m₂.find? k) : m₁ = m₂ := by
  have hmem : ∀ e, e ∈ m₁.entries ↔ e ∈ m₂.entries := fun e => by
    rw [← find?_eq_some_iff (k := e.1) (v := e.2), ← find?_eq_some_iff (k := e.1) (v := e.2), h]
  obtain ⟨l₁, h₁⟩ := m₁
  obtain ⟨l₂, h₂⟩ := m₂
  congr 1
  have irrefl : ∀ a b : κ × ν, compare a.1 b.1 = .lt → compare b.1 a.1 = .lt → False :=
    fun a b hab hba => by simp [Std.OrientedCmp.gt_of_lt hab] at hba
  have nodup : ∀ {l : List (κ × ν)}, (l.Pairwise fun a b => compare a.1 b.1 = .lt) → l.Nodup :=
    fun hl => hl.imp fun {a b} hab (hEq : a = b) => irrefl a b hab (by rw [hEq] at hab ⊢; exact hab)
  exact List.Perm.eq_of_pairwise (fun a b _ _ hab hba => (irrefl a b hab hba).elim) h₁ h₂
    ((List.perm_ext_iff_of_nodup (nodup h₁) (nodup h₂)).2 hmem)

end SortedMap

end Conic
