import Conic.Proofs.SortedMap
import Conic.Proofs.Text.ByteOrder
import Conic.SolverOptions
import Mathlib.Data.List.Induction

/-!
# What options hold

Options are made all at once or one after the other, and whichever way they were made, they hold the
last value of each name and nothing else (`SolverOptions.AssignedBy.get?_eq`). So they only depend
on the values that each name was given, in their order (`SolverOptions.AssignedBy.eq_of_filter_eq`).
They are listed by the bytes of their names.
-/

namespace Conic.SolverOptions

/-- A name and the value that it is given. -/
abbrev Assignments := List (String × OptionValue)

/-- Options that were made by these assignments, the later ones added to what the earlier ones
made. -/
inductive AssignedBy : SolverOptions → Assignments → Prop where
  | empty : AssignedBy .empty []
  | collected (l : Assignments) : AssignedBy (.ofList l) l
  | set {o : SolverOptions} {l : Assignments} (h : AssignedBy o l) (name : String)
      (value : OptionValue) :
    AssignedBy (o.set name value) (l ++ [(name, value)])

/-- The last value that a name is given. -/
def lastValue (name : String) (l : Assignments) : Option OptionValue :=
  ((l.filter (·.1 = name)).map Prod.snd).getLast?

theorem lastValue_append_singleton (l : Assignments) (name other : String) (value : OptionValue) :
    lastValue name (l ++ [(other, value)]) =
      if name = other then some value else lastValue name l := by
  rw [lastValue, List.filter_append, List.map_append]
  by_cases h : other = name
  · simp [h]
  · simp [h, Ne.symm h, lastValue]

/-- A name has a last value if it has any. -/
theorem exists_lastValue_iff {l : Assignments} {name : String} :
    (∃ value, lastValue name l = some value) ↔ name ∈ l.map Prod.fst := by
  rw [← Option.isSome_iff_exists, lastValue, List.getLast?_isSome, ne_eq, List.map_eq_nil_iff,
    List.filter_eq_nil_iff]
  simp

/-! ## Look-ups -/

theorem get?_set (o : SolverOptions) (name other : String) (value : OptionValue) :
    (o.set other value).get? name = if name = other then some value else o.get? name :=
  SortedMap.find?_insert ..

theorem ext_get? {o o' : SolverOptions} (h : ∀ name, o.get? name = o'.get? name) : o = o' := by
  obtain ⟨values⟩ := o
  obtain ⟨values'⟩ := o'
  exact congrArg SolverOptions.mk (SortedMap.ext_find? h)

theorem ofList_append_singleton (l : Assignments) (name : String) (value : OptionValue) :
    ofList (l ++ [(name, value)]) = (ofList l).set name value := by
  rw [ofList, List.foldl_append]
  rfl

/-- However options were made, all their assignments could have been made at once. -/
theorem AssignedBy.eq_ofList {o : SolverOptions} {l : Assignments} (h : o.AssignedBy l) :
    o = ofList l := by
  induction h with
  | empty => rfl
  | collected l => rfl
  | set _ name value ih => rw [ih, ofList_append_singleton]

/-- Options hold the last value of each name. -/
theorem AssignedBy.get?_eq {o : SolverOptions} {l : Assignments} (h : o.AssignedBy l)
    (name : String) :
    o.get? name = lastValue name l := by
  rw [h.eq_ofList]
  clear h
  induction l using List.reverseRecOn with
  | nil => rfl
  | append_singleton l e ih =>
    rw [ofList_append_singleton, get?_set, lastValue_append_singleton, ih]

/-- Assignments of other names in between do not matter. -/
theorem AssignedBy.eq_of_filter_eq {o o' : SolverOptions} {l l' : Assignments} (h : o.AssignedBy l)
    (h' : o'.AssignedBy l') (hsame : ∀ name, l'.filter (·.1 = name) = l.filter (·.1 = name)) :
    o' = o := by
  refine ext_get? fun name => ?_
  rw [h.get?_eq, h'.get?_eq, lastValue, lastValue, hsame]

/-! ## The list of the options -/

theorem mem_toList {o : SolverOptions} {name : String} {value : OptionValue} :
    (name, value) ∈ o.toList ↔ o.get? name = some value := SortedMap.find?_eq_some_iff.symm

theorem nodup_names (o : SolverOptions) : (o.toList.map Prod.fst).Nodup := o.values.nodup_keys

/-- The list of options that these assignments make. -/
structure Lists (o : SolverOptions) (l : Assignments) : Prop where
  ascending : o.toList.Pairwise fun a b => Text.bytes a.1 < Text.bytes b.1
  names : ∀ name, name ∈ o.toList.map Prod.fst ↔ name ∈ l.map Prod.fst
  values : ∀ e ∈ o.toList, lastValue e.1 l = some e.2

theorem AssignedBy.mem_toList_iff {o : SolverOptions} {l : Assignments} (h : o.AssignedBy l)
    {name : String} {value : OptionValue} :
    (name, value) ∈ o.toList ↔ lastValue name l = some value := by
  rw [mem_toList, h.get?_eq]

theorem AssignedBy.lists {o : SolverOptions} {l : Assignments} (h : o.AssignedBy l) :
    o.Lists l where
  ascending := o.values.sorted.imp Text.compare_eq_lt_iff.1
  names := fun name => by
    refine List.mem_map.trans (Iff.trans ?_ exists_lastValue_iff)
    constructor
    · rintro ⟨e, he, rfl⟩
      exact ⟨e.2, h.mem_toList_iff.1 he⟩
    · rintro ⟨value, hvalue⟩
      exact ⟨(name, value), h.mem_toList_iff.2 hvalue, rfl⟩
  values := fun _ he => h.mem_toList_iff.1 he

end Conic.SolverOptions
