import Conic.Proofs.SolverOptions
import Conic.Stacked.Settings

/-!
# Which settings options make

Each of the eight settings has a name and takes the values of one kind. An option with the name of a
setting gives it its value and leaves the others alone, or has a value of the wrong kind; an option
with another name is unknown (`SolverSettings.withOption_cases`). Since every option comes once, no
setting is given two values, and a run over all options succeeds if none of them is wrong and
otherwise tells the first one that is (`SolverSettings.foldlM_withOption_cases`). As options depend
on the last value of each name only, so do the settings they make and the error they cause
(`SolverSettings.withOptions_classified`).
-/

namespace Conic

/-! ## Values -/

/-- The value is a count: a whole number of 32 bits without a sign. -/
inductive OptionValue.Counts : OptionValue → Nat → Prop where
  | int {n : Nat} (h : n < 2 ^ 32) : Counts (.int n) n

/-- The value is a number, possibly a whole one. -/
inductive OptionValue.Measures : OptionValue → Float → Prop where
  | float (x : Float) : Measures (.float x) x
  | int (n : Int) : Measures (.int n) (Float.ofInt n)

/-- What can be set by an option, by the names of the options. -/
inductive Setting where
  | maxIters
  | abstol
  | reltol
  | feastol
  | abstolInacc
  | reltolInacc
  | feastolInacc
  | timeLimit

namespace Setting

/-- The name of the option. -/
def name : Setting → String
  | maxIters => "max_iters"
  | abstol => "abstol"
  | reltol => "reltol"
  | feastol => "feastol"
  | abstolInacc => "abstol_inacc"
  | reltolInacc => "reltol_inacc"
  | feastolInacc => "feastol_inacc"
  | timeLimit => "time_limit"

/-- The setting as a value, a count or a number. -/
def HasValue (s : SolverSettings) (value : OptionValue) : Setting → Prop
  | maxIters => value.Counts s.maxIterations
  | abstol => value.Measures s.gapAbs
  | reltol => value.Measures s.gapRel
  | feastol => value.Measures s.feasibility
  | abstolInacc => value.Measures s.reducedGapAbs
  | reltolInacc => value.Measures s.reducedGapRel
  | feastolInacc => value.Measures s.reducedFeasibility
  | timeLimit => value.Measures s.timeLimit

/-- Two settings agree in this one. -/
def Agrees (s s' : SolverSettings) : Setting → Prop
  | maxIters => s.maxIterations = s'.maxIterations
  | abstol => s.gapAbs = s'.gapAbs
  | reltol => s.gapRel = s'.gapRel
  | feastol => s.feasibility = s'.feasibility
  | abstolInacc => s.reducedGapAbs = s'.reducedGapAbs
  | reltolInacc => s.reducedGapRel = s'.reducedGapRel
  | feastolInacc => s.reducedFeasibility = s'.reducedFeasibility
  | timeLimit => s.timeLimit = s'.timeLimit

/-- The setting can have this value. -/
def Takes (value : OptionValue) : Setting → Prop
  | maxIters => ∃ n, value.Counts n
  | _ => ∃ x, value.Measures x

/-- The complaint about a value of the wrong kind. -/
def wrongKind (value : OptionValue) : Setting → SolverFault
  | maxIters => .notCount maxIters.name value
  | k => .notNumber k.name value

theorem takes_iff {k : Setting} (hk : k ≠ maxIters) (value : OptionValue) :
    k.Takes value ↔ ∃ x, value.Measures x := by
  cases k <;> first | rfl | exact absurd rfl hk

theorem wrongKind_eq {k : Setting} (hk : k ≠ maxIters) (value : OptionValue) :
    k.wrongKind value = .notNumber k.name value := by
  cases k <;> first | rfl | exact absurd rfl hk

theorem name_injective {j k : Setting} (h : j.name = k.name) : j = k := by
  cases j <;> cases k <;> first | rfl | exact absurd h (by decide)

theorem Agrees.hasValue {s s' : SolverSettings} {k : Setting} (h : k.Agrees s s')
    {value : OptionValue} (hvalue : k.HasValue s value) : k.HasValue s' value := by
  cases k <;> (rw [Agrees] at h; rwa [HasValue, ← h])

theorem Agrees.trans {s t u : SolverSettings} {k : Setting} (h : k.Agrees s t) (h' : k.Agrees t u) :
    k.Agrees s u := by
  cases k <;> exact Eq.trans h h'

end Setting

/-- The option is the name of a setting with a value that the setting can have. -/
def Admissible (name : String) (value : OptionValue) : Prop :=
  ∃ k : Setting, k.name = name ∧ k.Takes value

/-- What is wrong with an option by itself. -/
inductive Offends (name : String) (value : OptionValue) : SolverFault → Prop where
  | unknown (h : ∀ k : Setting, k.name ≠ name) : Offends name value (.unknownOption name)
  | wrongKind (k : Setting) (hname : k.name = name) (h : ¬ k.Takes value) :
    Offends name value (k.wrongKind value)

theorem Offends.not_admissible {name : String} {value : OptionValue} {fault : SolverFault}
    (h : Offends name value fault) : ¬ Admissible name value := by
  rintro ⟨k, hk, htakes⟩
  cases h with
  | unknown hnone => exact hnone k hk
  | wrongKind j hj hnot =>
    rw [Setting.name_injective (hj.trans hk.symm)] at hnot
    exact hnot htakes

/-- There is one complaint about an option. -/
theorem Offends.unique {name : String} {value : OptionValue} {fault fault' : SolverFault}
    (h : Offends name value fault) (h' : Offends name value fault') : fault = fault' := by
  cases h with
  | unknown hnone =>
    cases h' with
    | unknown => rfl
    | wrongKind k hk => exact absurd hk (hnone k)
  | wrongKind k hk =>
    cases h' with
    | unknown hnone => exact absurd hk (hnone k)
    | wrongKind j hj => rw [Setting.name_injective (hk.trans hj.symm)]

namespace SolverSettings

/-! ## One option -/

theorem countOption_cases (name : String) (value : OptionValue) :
    (∃ n, value.Counts n ∧ countOption name value = .ok n) ∨
      ((¬ ∃ n, value.Counts n) ∧
        countOption name value = .error (.solver (.notCount name value))) := by
  cases value with
  | int n =>
    by_cases h : 0 ≤ n ∧ n.toNat < UInt32.size
    · obtain ⟨m, rfl⟩ := Int.eq_ofNat_of_zero_le h.1
      refine .inl ⟨m, .int h.2, ?_⟩
      rw [countOption, OptionValue.asCount?, if_pos h]
      rfl
    · refine .inr ⟨?_, ?_⟩
      · rintro ⟨m, ⟨hm⟩⟩
        exact h ⟨Int.natCast_nonneg m, hm⟩
      · rw [countOption, OptionValue.asCount?, if_neg h]
  | _ => exact .inr ⟨nofun, rfl⟩

theorem numberOption_cases (name : String) (value : OptionValue) :
    (∃ x, value.Measures x ∧ numberOption name value = .ok x) ∨
      ((¬ ∃ x, value.Measures x) ∧
        numberOption name value = .error (.solver (.notNumber name value))) := by
  cases value with
  | int n => exact .inl ⟨_, .int n, rfl⟩
  | float x => exact .inl ⟨x, .float x, rfl⟩
  | _ => exact .inr ⟨nofun, rfl⟩

/-- Settings with a number in place of one of them. -/
def withNumber (s : SolverSettings) (x : Float) : Setting → SolverSettings
  | .maxIters => s
  | .abstol => { s with gapAbs := x }
  | .reltol => { s with gapRel := x }
  | .feastol => { s with feasibility := x }
  | .abstolInacc => { s with reducedGapAbs := x }
  | .reltolInacc => { s with reducedGapRel := x }
  | .feastolInacc => { s with reducedFeasibility := x }
  | .timeLimit => { s with timeLimit := x }

theorem agrees_withNumber (s : SolverSettings) (x : Float) {j k : Setting} (h : j ≠ k) :
    j.Agrees s (s.withNumber x k) := by
  cases j <;> cases k <;> first | rfl | exact absurd rfl h

theorem agrees_maxIterations (s : SolverSettings) (n : Nat) {j : Setting} (h : j ≠ .maxIters) :
    j.Agrees s { s with maxIterations := n } := by
  cases j <;> first | rfl | exact absurd rfl h

theorem hasValue_withNumber (s : SolverSettings) {x : Float} {k : Setting} (hk : k ≠ .maxIters)
    {value : OptionValue} (h : value.Measures x) : k.HasValue (s.withNumber x k) value := by
  cases k <;> first | exact h | exact absurd rfl hk

theorem withOption_maxIters (s : SolverSettings) (value : OptionValue) :
    s.withOption Setting.maxIters.name value =
      ({ s with maxIterations := · }) <$> countOption Setting.maxIters.name value := rfl

theorem withOption_number (s : SolverSettings) {k : Setting} (hk : k ≠ .maxIters)
    (value : OptionValue) :
    s.withOption k.name value = (s.withNumber · k) <$> numberOption k.name value := by
  cases k <;> first | rfl | exact absurd rfl hk

/-- An option with the name of a setting gives it the value and changes nothing else, or has a value
that the setting cannot have. -/
theorem withOption_name_cases (s : SolverSettings) (k : Setting) (value : OptionValue) :
    (k.Takes value ∧ ∃ s', s.withOption k.name value = .ok s' ∧ k.HasValue s' value ∧
      ∀ j ≠ k, j.Agrees s s') ∨
      (¬ k.Takes value ∧ s.withOption k.name value = .error (.solver (k.wrongKind value))) := by
  by_cases hk : k = .maxIters
  · subst hk
    rw [withOption_maxIters]
    rcases countOption_cases Setting.maxIters.name value with ⟨n, hn, hok⟩ | ⟨hnot, herror⟩
    · rw [hok]
      exact .inl ⟨⟨n, hn⟩, _, rfl, hn, fun j hj => s.agrees_maxIterations n hj⟩
    · rw [herror]
      exact .inr ⟨hnot, rfl⟩
  · rw [withOption_number s hk, Setting.takes_iff hk, Setting.wrongKind_eq hk]
    rcases numberOption_cases k.name value with ⟨x, hx, hok⟩ | ⟨hnot, herror⟩
    · rw [hok]
      exact .inl ⟨⟨x, hx⟩, _, rfl, s.hasValue_withNumber hk hx,
        fun j hj => s.agrees_withNumber x hj⟩
    · rw [herror]
      exact .inr ⟨hnot, rfl⟩

theorem withOption_unknown (s : SolverSettings) {name : String} (h : ∀ k : Setting, k.name ≠ name)
    (value : OptionValue) : s.withOption name value = .error (.solver (.unknownOption name)) := by
  unfold withOption
  split
  case h_1 => exact absurd rfl (h .maxIters)
  case h_2 => exact absurd rfl (h .abstol)
  case h_3 => exact absurd rfl (h .reltol)
  case h_4 => exact absurd rfl (h .feastol)
  case h_5 => exact absurd rfl (h .abstolInacc)
  case h_6 => exact absurd rfl (h .reltolInacc)
  case h_7 => exact absurd rfl (h .feastolInacc)
  case h_8 => exact absurd rfl (h .timeLimit)
  case h_9 => rfl

/-- An option gives its setting the value, or is wrong whatever the settings are. -/
theorem withOption_cases (s : SolverSettings) (name : String) (value : OptionValue) :
    (∃ k : Setting, k.name = name ∧ k.Takes value ∧
      ∃ s', s.withOption name value = .ok s' ∧ k.HasValue s' value ∧ ∀ j ≠ k, j.Agrees s s') ∨
      ∃ fault, Offends name value fault ∧ s.withOption name value = .error (.solver fault) := by
  by_cases hknown : ∃ k : Setting, k.name = name
  · obtain ⟨k, rfl⟩ := hknown
    rcases s.withOption_name_cases k value with ⟨htakes, hset⟩ | ⟨hnot, herror⟩
    · exact .inl ⟨k, rfl, htakes, hset⟩
    · exact .inr ⟨_, .wrongKind k rfl hnot, herror⟩
  · have hnone : ∀ k : Setting, k.name ≠ name := fun k hk => hknown ⟨k, hk⟩
    exact .inr ⟨_, .unknown hnone, s.withOption_unknown hnone value⟩

/-! ## All options -/

/-- The settings have the values of these options, and are as before where there is none. -/
structure Follows (l : SolverOptions.Assignments) (s s' : SolverSettings) : Prop where
  admissible : ∀ e ∈ l, Admissible e.1 e.2
  hasValue : ∀ e ∈ l, ∀ k : Setting, k.name = e.1 → k.HasValue s' e.2
  agrees : ∀ k : Setting, k.name ∉ l.map Prod.fst → k.Agrees s s'

/-- The complaint is about the first option that is wrong. -/
def FirstOffence (l : SolverOptions.Assignments) (fault : SolverFault) : Prop :=
  ∃ before e after, l = before ++ e :: after ∧ (∀ d ∈ before, Admissible d.1 d.2) ∧
    Offends e.1 e.2 fault

theorem Follows.cons {l : SolverOptions.Assignments} {name : String} {value : OptionValue}
    {k : Setting} {s t u : SolverSettings} (hk : k.name = name) (htakes : k.Takes value)
    (hvalue : k.HasValue t value) (hrest : ∀ j ≠ k, j.Agrees s t) (hnew : name ∉ l.map Prod.fst)
    (h : Follows l t u) :
    Follows ((name, value) :: l) s u where
  admissible := List.forall_mem_cons.2 ⟨⟨k, hk, htakes⟩, h.admissible⟩
  hasValue := by
    refine List.forall_mem_cons.2 ⟨fun j hj => ?_, h.hasValue⟩
    -- no later option has this name
    rw [Setting.name_injective (hj.trans hk.symm)]
    exact (h.agrees k (hk ▸ hnew)).hasValue hvalue
  agrees := fun j hj => by
    rw [List.map_cons, List.mem_cons, not_or] at hj
    have hne : j ≠ k := fun hjk => hj.1 (hjk ▸ hk)
    exact (hrest j hne).trans (h.agrees j hj.2)

/-- A run over options of different names. -/
theorem foldlM_withOption_cases {l : SolverOptions.Assignments} (hnames : (l.map Prod.fst).Nodup)
    (s : SolverSettings) :
    (∃ s', l.foldlM (fun s e => s.withOption e.1 e.2) s = .ok s' ∧ Follows l s s') ∨
      ∃ fault, FirstOffence l fault ∧
        l.foldlM (fun s e => s.withOption e.1 e.2) s = .error (.solver fault) := by
  induction l generalizing s with
  | nil => exact .inl ⟨s, rfl, ⟨nofun, nofun, fun k _ => by cases k <;> rfl⟩⟩
  | cons e l ih =>
    obtain ⟨name, value⟩ := e
    obtain ⟨hnew, hnames⟩ := List.nodup_cons.1 hnames
    rw [List.foldlM_cons]
    rcases s.withOption_cases name value with
      ⟨k, hk, htakes, t, ht, hvalue, hrest⟩ | ⟨fault, hfault, herror⟩
    · show (∃ s', s.withOption name value >>= _ = _ ∧ _) ∨
        ∃ fault, _ ∧ s.withOption name value >>= _ = _
      rw [ht]
      rcases ih hnames t with
        ⟨u, hu, hfollows⟩ | ⟨fault, ⟨before, d, after, rfl, hbefore, hd⟩, herror⟩
      · exact .inl ⟨u, hu, hfollows.cons hk htakes hvalue hrest hnew⟩
      · refine .inr ⟨fault, ⟨(name, value) :: before, d, after, rfl, ?_, hd⟩, herror⟩
        exact List.forall_mem_cons.2 ⟨⟨k, hk, htakes⟩, hbefore⟩
    · refine .inr ⟨fault, ⟨[], (name, value), l, rfl, nofun, hfault⟩, ?_⟩
      show s.withOption name value >>= _ = _
      rw [herror]
      rfl

/-! ## Options as they were assigned -/

open SolverOptions (Assignments AssignedBy lastValue Lists)

/-- The settings have the last values that were assigned, and are as before where there is none. -/
structure Reflects (l : Assignments) (s s' : SolverSettings) : Prop where
  hasValue : ∀ (k : Setting) value, lastValue k.name l = some value → k.HasValue s' value
  agrees : ∀ k : Setting, lastValue k.name l = none → k.Agrees s s'

/-- The complaint is about the last value of a name, and no name of smaller bytes has a wrong
one. -/
def LeastOffence (l : Assignments) (fault : SolverFault) : Prop :=
  ∃ name value, lastValue name l = some value ∧ Offends name value fault ∧
    ∀ name' value', lastValue name' l = some value' → ¬ Admissible name' value' →
      Text.bytes name ≤ Text.bytes name'

theorem LeastOffence.unique {l : Assignments} {fault fault' : SolverFault}
    (h : LeastOffence l fault) (h' : LeastOffence l fault') : fault = fault' := by
  obtain ⟨name, value, hvalue, hoffends, hleast⟩ := h
  obtain ⟨name', value', hvalue', hoffends', hleast'⟩ := h'
  have hle := hleast name' value' hvalue' hoffends'.not_admissible
  have hge := hleast' name value hvalue hoffends.not_admissible
  obtain rfl : name = name' := Text.eq_of_bytes_le hle hge
  rw [hvalue] at hvalue'
  cases hvalue'
  exact hoffends.unique hoffends'

variable {o : SolverOptions} {l : Assignments}

theorem Follows.reflects (h : o.AssignedBy l) {s s' : SolverSettings} (hs : Follows o.toList s s') :
    Reflects l s s' where
  hasValue := fun k value hvalue => hs.hasValue (k.name, value) (h.mem_toList_iff.2 hvalue) k rfl
  agrees := fun k hnone => hs.agrees k fun hmem => by
    obtain ⟨value, hvalue⟩ := SolverOptions.exists_lastValue_iff.2 ((h.lists.names k.name).1 hmem)
    rw [hnone] at hvalue
    cases hvalue

/-- The options come in the order of their bytes, so the first one that is wrong is the least. -/
theorem FirstOffence.least (h : o.AssignedBy l) {fault : SolverFault}
    (hfirst : FirstOffence o.toList fault) :
    LeastOffence l fault := by
  obtain ⟨before, ⟨name, value⟩, after, hsplit, hbefore, hoffends⟩ := hfirst
  have hascending := h.lists.ascending
  have hmem : (name, value) ∈ o.toList := by simp [hsplit]
  refine ⟨name, value, h.mem_toList_iff.1 hmem, hoffends, fun name' value' hvalue' hwrong => ?_⟩
  have hmem' := h.mem_toList_iff.2 hvalue'
  rw [hsplit] at hascending hmem'
  rcases List.mem_append.1 hmem' with hin | hin
  · exact absurd (hbefore _ hin) hwrong
  · rcases List.mem_cons.1 hin with heq | hin
    · cases heq
      exact List.le_refl _
    · have hlater := (List.pairwise_cons.1 (List.pairwise_append.1 hascending).2.1).1 _ hin
      exact List.le_of_lt hlater

theorem withOptions_cases (h : o.AssignedBy l) (s : SolverSettings) :
    (∃ s', s.withOptions o = .ok s' ∧ Reflects l s s' ∧
      ∀ name value, lastValue name l = some value → Admissible name value) ∨
      ∃ fault, LeastOffence l fault ∧ s.withOptions o = .error (.solver fault) := by
  rcases foldlM_withOption_cases o.nodup_names s with ⟨s', hs', hfollows⟩ | ⟨fault, hfirst, herror⟩
  · refine .inl ⟨s', hs', hfollows.reflects h, fun name value hvalue => ?_⟩
    exact hfollows.admissible (name, value) (h.mem_toList_iff.2 hvalue)
  · exact .inr ⟨fault, hfirst.least h, herror⟩

/-- What options do, however they were made. They are the last values of the names they were
assigned, each name once, by ascending bytes. They make settings exactly if each of these values is
one that the setting of this name can have; then these settings have the values, and the others are
as they were. Otherwise the complaint is the one about the wrong option whose name has the smallest
bytes. Assignments of other names in between change nothing: neither the options nor what they make
of settings. -/
theorem withOptions_classified (h : o.AssignedBy l) (s : SolverSettings) :
    o.Lists l ∧
    ((∃ s', s.withOptions o = .ok s') ↔
      ∀ name value, lastValue name l = some value → Admissible name value) ∧
    (∀ s', s.withOptions o = .ok s' → Reflects l s s') ∧
    (∀ e, s.withOptions o = .error e ↔ ∃ fault, e = .solver fault ∧ LeastOffence l fault) ∧
    ∀ (o' : SolverOptions) (l' : Assignments), o'.AssignedBy l' →
      (∀ name, l'.filter (·.1 = name) = l.filter (·.1 = name)) →
        o' = o ∧ s.withOptions o' = s.withOptions o := by
  have hsame : ∀ (o' : SolverOptions) (l' : Assignments), o'.AssignedBy l' →
      (∀ name, l'.filter (·.1 = name) = l.filter (·.1 = name)) →
        o' = o ∧ s.withOptions o' = s.withOptions o := by
    intro o' l' h' hfilter
    obtain rfl := h.eq_of_filter_eq h' hfilter
    exact ⟨rfl, rfl⟩
  rcases withOptions_cases h s with ⟨s', hs', hreflects, hall⟩ | ⟨fault, hleast, herror⟩
  · rw [hs']
    refine ⟨h.lists, ⟨fun _ => hall, fun _ => ⟨s', rfl⟩⟩, ?_, fun e => ⟨nofun, ?_⟩, hs' ▸ hsame⟩
    · rintro _ ⟨⟩
      exact hreflects
    · rintro ⟨_, -, name, value, hvalue, hoffends, -⟩
      exact absurd (hall name value hvalue) hoffends.not_admissible
  · rw [herror]
    obtain ⟨name, value, hvalue, hoffends, -⟩ := id hleast
    refine ⟨h.lists, ⟨nofun, fun hall => ?_⟩, nofun, fun e => ⟨?_, ?_⟩, herror ▸ hsame⟩
    · exact absurd (hall name value hvalue) hoffends.not_admissible
    · rintro ⟨⟩
      exact ⟨fault, rfl, hleast⟩
    · rintro ⟨fault', rfl, hleast'⟩
      rw [hleast.unique hleast']

/-- A wrong value that was replaced does no harm, and an option may be moved between those of
another name. Of two wrong options the one with the smaller name is told, though it was set last. -/
theorem replaced_and_wrong :
    let good : Assignments :=
      [("max_iters", .str "many"), ("time_limit", .int 3), ("max_iters", .int 50)]
    let moved : Assignments :=
      [("time_limit", .int 3), ("max_iters", .str "many"), ("max_iters", .int 50)]
    let wrong : Assignments := [("zeta", .int 1), ("reltol", .float 2), ("reltol", .bool true)]
    (∃ s', ({} : SolverSettings).withOptions (.ofList good) = .ok s' ∧ s'.maxIterations = 50 ∧
      s'.timeLimit = Float.ofInt 3 ∧ s'.gapAbs = 1e-8) ∧
    SolverOptions.ofList moved = .ofList good ∧
    ({} : SolverSettings).withOptions (.ofList wrong) =
      .error (.solver (.notNumber "reltol" (.bool true))) := by
  intro good moved wrong
  obtain ⟨-, -, hreflects, -, hsame⟩ := withOptions_classified (AssignedBy.collected good) {}
  obtain ⟨-, -, -, herror, -⟩ := withOptions_classified (AssignedBy.collected wrong) {}
  refine ⟨⟨_, rfl, ?_, ?_, rfl⟩, (hsame _ moved (.collected moved) ?_).1, ?_⟩
  · have hvalue := (hreflects _ rfl).hasValue .maxIters (.int 50) rfl
    cases hvalue
    rfl
  · have hvalue := (hreflects _ rfl).hasValue .timeLimit (.int 3) rfl
    cases hvalue
    rfl
  · intro name
    by_cases hname : "max_iters" = name
    · subst hname
      rfl
    · simp [good, moved, List.filter_cons, hname]
  · refine (herror _).2 ⟨_, rfl, "reltol", .bool true, rfl, .wrongKind .reltol rfl nofun, ?_⟩
    intro name value hvalue _
    have hname := SolverOptions.exists_lastValue_iff.1 ⟨value, hvalue⟩
    simp only [wrong, List.map_cons, List.map_nil, List.mem_cons, List.not_mem_nil, or_false]
      at hname
    rcases hname with rfl | rfl | rfl <;> decide

end SolverSettings

end Conic
