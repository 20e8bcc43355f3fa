import Conic.Proofs.ConeProgram.Faults
import Conic.Proofs.Expressions.Operations
import Conic.Proofs.Identifiers

/-!
# Numbers of a run

Whether a call is refused, and with which error, is read off its arguments (`Call.refusal?`); the
supply has no part in it. What a call makes in a run is numbered by the calls before it that were
not refused (`Call.numbered_run`).
-/

namespace Conic

variable {α : Type}

/-! ## Refusals -/

/-- What a step answers to a full supply if it refuses. -/
def Build.refusal? {β : Type} (step : Build β) : Option Error :=
  match step .full with
  | .ok _ _ => none
  | .error e _ => some e

/-- A step that draws one number does so whatever the supply is, or never. -/
theorem DrawsOne.refused {step : Build (Made α)} (h : DrawsOne step) {e : Error}
    (he : step.refusal? = some e) (s : IdSupply) : step s = .error e s := by
  rcases h with ⟨e', herror⟩ | ⟨make, -, hmake⟩
  · rw [Build.refusal?, herror] at he
    cases he
    exact herror s
  · rw [Build.refusal?, hmake] at he
    cases he

theorem DrawsOne.made {step : Build (Made α)} (h : DrawsOne step) (hnone : step.refusal? = none)
    (s : IdSupply) : ∃ made, step s = .ok made ⟨s.next + 1⟩ ∧ made.index = s.next := by
  rcases h with ⟨e, herror⟩ | ⟨make, hindex, hmake⟩
  · rw [Build.refusal?, herror] at hnone
    cases hnone
  · exact ⟨make s.next, hmake s, hindex _⟩

theorem Build.refusal?_map {β γ : Type} (f : β → γ) (step : Build β) :
    (f <$> step).refusal? = step.refusal? := by
  show (match EStateM.map f step .full with | .ok _ _ => none | .error e _ => some e) = _
  rw [EStateM.map, refusal?]
  cases step .full <;> rfl

/-- A comparison is refused if there is no difference. -/
theorem Build.refusal?_lift {β : Type} (x : Except Error β) {f : β → Build (Constraint α)}
    (hf : ∀ b, (f b).refusal? = none) : (Build.lift x >>= f).refusal? = fault? x := by
  cases x with
  | ok b => exact hf b
  | error e => rfl

/-- A step after a check is refused by the check or by itself. -/
theorem Build.refusal?_check {β : Type} {P Q : Prop} [Decidable P] [Decidable Q] (h : P ↔ Q)
    {f : P → Build β} {o : Option Error} (hf : ∀ hP, (f hP).refusal? = o) (e : Error) :
    (if hP : P then f hP else throw e).refusal? = if Q then o else some e := by
  split
  case isTrue hP => rw [hf, if_pos (h.1 hP)]
  case isFalse hP =>
    rw [if_neg fun hQ => hP (h.2 hQ)]
    rfl

/-- What is wrong with two sizes, of which none is one, that are not equal. -/
def sizesFault? (m n : Nat) : Option Error :=
  if m = n ∨ m = 1 ∨ n = 1 then none else some (.shapeMismatch (.sizes m n))

namespace AffineExpr

theorem fault?_add [Zero α] [Add α] (a b : AffineExpr α) :
    fault? (a.add b) = sizesFault? a.size b.size := by
  rw [add, sizesFault?]
  by_cases hsize : a.size = b.size
  · rw [dif_pos hsize, if_pos (.inl hsize)]
    rfl
  · rw [dif_neg hsize]
    by_cases hleft : a.size = 1
    · rw [if_pos hleft, if_pos (.inr (.inl hleft))]
      rfl
    · rw [if_neg hleft]
      by_cases hright : b.size = 1
      · rw [if_pos hright, if_pos (.inr (.inr hright))]
        rfl
      · rw [if_neg hright, if_neg fun h => (h.resolve_left hsize).elim hleft hright]
        rfl

theorem fault?_sub [Zero α] [One α] [Add α] [Mul α] [Neg α] (a b : AffineExpr α) :
    fault? (a.sub b) = sizesFault? a.size b.size := by
  rw [sub, fault?_add, size_neg]

end AffineExpr

namespace Call

/-- Why a call is refused, if it is. Only sizes and the exponent of a power cone count. -/
def refusal? : Call α → Option Error
  | block _ _ => none
  | varId => none
  | constrId => none
  | zero _ => none
  | nonpos _ => none
  | nonneg _ => none
  | eq l r => sizesFault? l.size r.size
  | leq l r => sizesFault? l.size r.size
  | geq l r => sizesFault? r.size l.size
  | soc t _ => if t.size = 1 then none else some (.shapeMismatch (.boundNotScalar t.size))
  | socColumns t x =>
    if t.size ≠ 0 ∧ x.size % t.size = 0 then none
    else some (.shapeMismatch (.bodySize t.size x.size))
  | expCone x y z =>
    if x.size = y.size ∧ x.size = z.size then none
    else some (.shapeMismatch (.argumentSizes x.size y.size z.size))
  | psd e dim =>
    if e.size = word (dim * dim) then none
    else some (.shapeMismatch (.entries (word (dim * dim)) e.size))
  | powCone x y z alpha =>
    if x.size = y.size ∧ x.size = z.size then
      if 0 < alpha ∧ alpha < 1 then none else some (.invalidProblem (.powerExponent alpha))
    else some (.shapeMismatch (.argumentSizes x.size y.size z.size))

/-- Whether a call is not refused. -/
def succeeds (call : Call α) : Bool := call.refusal?.isNone

theorem refusal?_socColumns (t x : AffineExpr α) :
    (Constraint.socColumns t x).refusal? = (socColumns t x).refusal? :=
  Build.refusal?_check (o := none) (and_congr Nat.pos_iff_ne_zero Nat.dvd_iff_mod_eq_zero)
    (fun _ => rfl) _

theorem refusal?_soc (t x : AffineExpr α) : (Constraint.soc t x).refusal? = (soc t x).refusal? := by
  refine Build.refusal?_check Iff.rfl (fun ht => ?_) _
  rw [refusal?_socColumns, refusal?, ht, if_pos ⟨Nat.one_ne_zero, Nat.mod_one _⟩]

theorem refusal?_expCone (x y z : AffineExpr α) :
    (Constraint.expCone x y z).refusal? = (expCone x y z).refusal? :=
  Build.refusal?_check (o := none) (and_congr eq_comm eq_comm) (fun _ => rfl) _

theorem refusal?_psd (e : AffineExpr α) (dim : Nat) :
    (Constraint.psd e dim).refusal? = (psd e dim).refusal? :=
  Build.refusal?_check (o := none) Iff.rfl (fun _ => rfl) _

theorem refusal?_powCone (x y z : AffineExpr α) (alpha : Float) :
    (Constraint.powCone x y z alpha).refusal? = (powCone x y z alpha).refusal? :=
  Build.refusal?_check (and_congr eq_comm eq_comm)
    (fun _ => Build.refusal?_check (o := none) Iff.rfl (fun _ => rfl) _) _

variable [Zero α] [One α] [Add α] [Mul α] [Neg α]

/-- A comparison of two expressions is refused if they have no difference. -/
theorem refusal?_comparison (a b : AffineExpr α) {f : AffineExpr α → Build (Constraint α)}
    (hf : ∀ e, (f e).refusal? = none) :
    (Build.lift (a.sub b) >>= f).refusal? = sizesFault? a.size b.size := by
  rw [Build.refusal?_lift _ hf, AffineExpr.fault?_sub]

theorem refusal?_step (call : Call α) : call.step.refusal? = call.refusal? := by
  cases call with
  | eq l r => exact (Build.refusal?_map _ _).trans (refusal?_comparison l r fun _ => rfl)
  | leq l r => exact (Build.refusal?_map _ _).trans (refusal?_comparison l r fun _ => rfl)
  | geq l r => exact (Build.refusal?_map _ _).trans (refusal?_comparison r l fun _ => rfl)
  | soc t x => exact (Build.refusal?_map _ _).trans (refusal?_soc t x)
  | socColumns t x => exact (Build.refusal?_map _ _).trans (refusal?_socColumns t x)
  | expCone x y z => exact (Build.refusal?_map _ _).trans (refusal?_expCone x y z)
  | psd e dim => exact (Build.refusal?_map _ _).trans (refusal?_psd e dim)
  | powCone x y z alpha => exact (Build.refusal?_map _ _).trans (refusal?_powCone x y z alpha)
  | _ => rfl

/-- A call is refused for what is wrong with its arguments, and then nothing is taken from the
supply. -/
theorem step_eq_error {call : Call α} {s s' : IdSupply} {e : Error} :
    call.step s = .error e s' ↔ call.refusal? = some e ∧ s' = s := by
  constructor
  · intro h
    cases hrefusal : call.refusal? with
    | none =>
      obtain ⟨made, hmade, -⟩ := call.drawsOne_step.made (call.refusal?_step.trans hrefusal) s
      rw [h] at hmade
      cases hmade
    | some e' =>
      have herror := call.drawsOne_step.refused (call.refusal?_step.trans hrefusal) s
      rw [h] at herror
      cases herror
      exact ⟨rfl, rfl⟩
  · rintro ⟨hrefusal, rfl⟩
    exact call.drawsOne_step.refused (call.refusal?_step.trans hrefusal) s'

/-- A call that is not refused takes the next number for what it makes. -/
theorem exists_made {call : Call α} (h : call.succeeds) (s : IdSupply) :
    ∃ made, call.step s = .ok made ⟨s.next + 1⟩ ∧ made.index = s.next :=
  call.drawsOne_step.made (call.refusal?_step.trans (Option.isNone_iff_eq_none.1 h)) s

/-! ## Runs -/

theorem run_append (before after : List (Call α)) (s : IdSupply) :
    run (before ++ after) s =
      ((run before s).1 ++ (run after (run before s).2).1, (run after (run before s).2).2) := by
  induction before generalizing s with
  | nil => rfl
  | cons call before ih =>
    rw [List.cons_append, run, run]
    cases call.step s with
    | ok made s' => simp only [ih, List.cons_append]
    | error e s' => exact ih s'

theorem run_singleton_of_error {call : Call α} {s s' : IdSupply} {e : Error}
    (h : call.step s = .error e s') : run [call] s = ([], s') := by
  rw [run, h]
  rfl

theorem run_singleton_of_ok {call : Call α} {s s' : IdSupply} {made : Made α}
    (h : call.step s = .ok made s') : run [call] s = ([made], s') := by
  rw [run, h]
  rfl

/-- A run makes one thing for each call that is not refused. -/
theorem length_run (calls : List (Call α)) (s : IdSupply) :
    (run calls s).1.length = calls.countP succeeds := by
  induction calls generalizing s with
  | nil => rfl
  | cons call calls ih =>
    by_cases hsucceeds : call.succeeds
    · obtain ⟨made, hmade, -⟩ := exists_made hsucceeds s
      rw [run, hmade, List.countP_cons_of_pos hsucceeds]
      exact congrArg (· + 1) (ih _)
    · obtain ⟨e, he⟩ := Option.isSome_iff_exists.1 (Option.isSome_iff_ne_none.2
        fun hnone => hsucceeds (Option.isNone_iff_eq_none.2 hnone))
      rw [run, step_eq_error.2 ⟨he, rfl⟩, List.countP_cons_of_neg hsucceeds]
      exact ih s

/-- A run of a full supply takes the numbers from zero on, one for each call that is not refused. -/
theorem run_full (calls : List (Call α)) :
    (run calls .full).1.map Made.index = List.range (calls.countP succeeds) ∧
      (run calls .full).2.next = calls.countP succeeds := by
  obtain ⟨hmap, hnext⟩ := map_index_run calls .full
  rw [hmap, hnext, length_run, List.range_eq_range']
  exact ⟨rfl, Nat.zero_add _⟩

/-- The numbers of a run. A call is refused exactly for what is wrong with its arguments, whatever
the supply is, and leaves the supply as it was. What a run makes of a full supply, variables and
constraints alike, is numbered from zero on without a gap and in the order in which it is made, and
each call that is not refused makes something under the number of such calls before it. A run of
fewer than `2 ^ 64` calls ends before that number. -/
theorem numbered_run (calls : List (Call α)) (h : calls.length < 2 ^ 64) :
    (∀ (call : Call α) (s s' : IdSupply) (e : Error),
      call.step s = .error e s' ↔ call.refusal? = some e ∧ s' = s) ∧
    (run calls .full).1.map Made.index = List.range (calls.countP succeeds) ∧
    (run calls .full).1.Pairwise (·.index < ·.index) ∧
    (run calls .full).2.next = calls.countP succeeds ∧ calls.countP succeeds < 2 ^ 64 ∧
    ∀ before call after, calls = before ++ call :: after →
      (∀ e, call.refusal? = some e → run (before ++ [call]) .full = run before .full) ∧
      (call.refusal? = none → ∃ made, made.index = before.countP succeeds ∧
        call.step (run before .full).2 = .ok made ⟨before.countP succeeds + 1⟩ ∧
        run (before ++ [call]) .full =
          ((run before .full).1 ++ [made], ⟨before.countP succeeds + 1⟩)) := by
  refine ⟨fun call s s' e => step_eq_error, (run_full calls).1, ?_, (run_full calls).2,
    Nat.lt_of_le_of_lt List.countP_le_length h, ?_⟩
  · rw [← List.pairwise_map (f := Made.index), (run_full calls).1]
    exact List.pairwise_lt_range
  · rintro before call after rfl
    constructor
    · intro e he
      rw [run_append, run_singleton_of_error (step_eq_error.2 ⟨he, rfl⟩), List.append_nil]
    · intro hnone
      obtain ⟨made, hmade, hnumber⟩ :=
        exists_made (Option.isNone_iff_eq_none.2 hnone) (run before .full).2
      rw [(run_full before).2] at hmade hnumber
      exact ⟨made, hnumber, hmade, by rw [run_append, run_singleton_of_ok hmade]⟩

/-- Three of six calls are refused: a bound of two entries for one cone, a comparison of two entries
with three, and two bounds for a body of three. -/
theorem refusedBetween_numbered :
    let pair : AffineExpr Int := .ofConstant [1, 2]
    let triple : AffineExpr Int := .ofConstant [0, 0, 0]
    let calls : List (Call Int) :=
      [.block 2 none, .soc pair triple, .varId, .leq pair triple, .socColumns pair triple,
        .zero pair]
    (run calls .full).1.map Made.index = [0, 1, 2] ∧ (run calls .full).2.next = 3 ∧
      (∀ s, (leq pair triple).step s = .error (.shapeMismatch (.sizes 2 3)) s) ∧
      ∃ made, made.index = 2 ∧ (zero pair).step (run (calls.take 5) .full).2 = .ok made ⟨3⟩ := by
  intro pair triple calls
  have hcount : calls.countP succeeds = 3 := by decide
  have hbefore : (calls.take 5).countP succeeds = 2 := by decide
  obtain ⟨hrefused, hindex, -, hnext, -, hcalls⟩ := numbered_run calls (by decide)
  obtain ⟨-, hmade⟩ := hcalls (calls.take 5) (.zero pair) [] rfl
  obtain ⟨made, hnumber, hstep, -⟩ := hmade rfl
  rw [hcount] at hindex hnext
  rw [hbefore] at hnumber hstep
  exact ⟨hindex, hnext, fun s => (hrefused _ s s _).2 ⟨rfl, rfl⟩, made, hnumber, hstep⟩

end Call

end Conic
