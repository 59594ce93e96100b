import Mathlib

/-! # Runs of partial step functions

A system is a step function `σ → ε → Option σ`: an event either moves the state
or stops the system for good (`none`).  A run feeds a list of events to it.  The
rules below turn what one step preserves into what a whole run preserves, also
when the preservation argument needs a side condition on every step taken.
-/

namespace Bulkmail.Library

variable {σ ε : Type*}

/-- Feed the events to the system one after another. -/
def runs (step : σ → ε → Option σ) : σ → List ε → Option σ
  | s, [] => some s
  | s, e :: rest => (step s e).bind fun next => runs step next rest

/-- Every step the run takes meets the condition, which may look at the state
    in front of the step and at its event. -/
def EachStep (step : σ → ε → Option σ) (cond : σ → ε → Prop) : σ → List ε → Prop
  | _, [] => True
  | s, e :: rest => cond s e ∧ ∀ next, step s e = some next → EachStep step cond next rest

instance EachStep.decidable (step : σ → ε → Option σ) (cond : σ → ε → Prop)
    [∀ s e, Decidable (cond s e)] : ∀ s events, Decidable (EachStep step cond s events)
  | _, [] => isTrue trivial
  | s, e :: rest =>
      match taken : step s e with
      | none => decidable_of_iff (cond s e) (by simp [EachStep, taken])
      | some next =>
          have := EachStep.decidable step cond next rest
          decidable_of_iff (cond s e ∧ EachStep step cond next rest) (by simp [EachStep, taken])

/-- A property of every state the run passes through, the first and the last included. -/
def Throughout (step : σ → ε → Option σ) (good : σ → Prop) : σ → List ε → Prop
  | s, [] => good s
  | s, e :: rest => good s ∧ ∀ next, step s e = some next → Throughout step good next rest

instance Throughout.decidable (step : σ → ε → Option σ) (good : σ → Prop) [DecidablePred good] :
    ∀ s events, Decidable (Throughout step good s events)
  | s, [] => inferInstanceAs (Decidable (good s))
  | s, e :: rest =>
      match taken : step s e with
      | none => decidable_of_iff (good s) (by simp [Throughout, taken])
      | some next =>
          have := Throughout.decidable step good next rest
          decidable_of_iff (good s ∧ Throughout step good next rest) (by simp [Throughout, taken])

/-- How many steps of the run count. -/
def tally (step : σ → ε → Option σ) (counts : σ → ε → Bool) : σ → List ε → ℕ
  | _, [] => 0
  | s, e :: rest =>
      (counts s e).toNat + (step s e).elim 0 fun next => tally step counts next rest

section Rules

variable {step : σ → ε → Option σ} {cond : σ → ε → Prop} {s t : σ}

theorem runs_invariant {inv : σ → Prop}
    (preserves : ∀ s e t, inv s → step s e = some t → inv t)
    {events : List ε} (start : inv s) (ran : runs step s events = some t) : inv t := by
  induction events generalizing s with
  | nil =>
      obtain rfl := Option.some.inj ran
      exact start
  | cons e rest ih =>
      obtain ⟨next, taken, later⟩ := Option.bind_eq_some_iff.mp ran
      exact ih (preserves s e next start taken) later

/-- An invariant that only the events of the run have to keep. -/
theorem runs_invariant_of_forall {inv : σ → Prop} {ok : ε → Prop}
    (preserves : ∀ s e t, inv s → ok e → step s e = some t → inv t)
    {events : List ε} (start : inv s) (all : ∀ e ∈ events, ok e)
    (ran : runs step s events = some t) : inv t := by
  induction events generalizing s with
  | nil =>
      obtain rfl := Option.some.inj ran
      exact start
  | cons e rest ih =>
      obtain ⟨next, taken, later⟩ := Option.bind_eq_some_iff.mp ran
      have kept := preserves s e next start (all e List.mem_cons_self) taken
      exact ih kept (fun e member => all e (List.mem_cons_of_mem _ member)) later

/-- Where an invariant keeps a step from stopping the system, no run stops. -/
theorem exists_run {inv : σ → Prop} {ok : ε → Prop}
    (goes : ∀ s e, inv s → ok e → ∃ t, step s e = some t ∧ inv t)
    {events : List ε} (start : inv s) (all : ∀ e ∈ events, ok e) :
    ∃ t, runs step s events = some t ∧ inv t := by
  induction events generalizing s with
  | nil => exact ⟨s, rfl, start⟩
  | cons e rest ih =>
      obtain ⟨next, taken, kept⟩ := goes s e start (all e List.mem_cons_self)
      obtain ⟨t, ran, last⟩ := ih kept fun e member => all e (List.mem_cons_of_mem _ member)
      exact ⟨t, by simp [runs, taken, ran], last⟩

theorem runs_append (first second : List ε) :
    runs step s (first ++ second) = (runs step s first).bind fun t => runs step t second := by
  induction first generalizing s with
  | nil => rfl
  | cons e rest ih => simp only [List.cons_append, runs, ih, Option.bind_assoc]

/-- When every step is matched by a step of another system or by none, a run and the matching
    steps are related after each of its steps. -/
theorem runs_simulation_stepwise {τ δ : Type*} {other : τ → δ → Option τ} {sim : σ → τ → Prop}
    {ok : ε → Option δ → Prop}
    (simulates : ∀ s e s' t, sim s t → step s e = some s' →
      ∃ matched t', ok e matched ∧ runs other t matched.toList = some t' ∧ sim s' t')
    {events : List ε} {s' : σ} {t : τ} (start : sim s t) (ran : runs step s events = some s') :
    ∃ matched, List.Forall₂ ok events matched ∧
      ∀ n s', runs step s (events.take n) = some s' →
        ∃ t', runs other t (matched.take n).reduceOption = some t' ∧ sim s' t' := by
  induction events generalizing s t with
  | nil =>
      refine ⟨[], .nil, fun n s' ran => ?_⟩
      rw [List.take_nil] at ran
      obtain rfl := Option.some.inj ran
      exact ⟨t, by rw [List.take_nil]; rfl, start⟩
  | cons e rest ih =>
      obtain ⟨next, taken, later⟩ := Option.bind_eq_some_iff.mp ran
      obtain ⟨first, t', fine, moved, kept⟩ := simulates s e next t start taken
      obtain ⟨others, all, follows⟩ := ih kept later
      refine ⟨first :: others, .cons fine all, fun n s' ran => ?_⟩
      cases n with
      | zero =>
          obtain rfl := Option.some.inj ran
          exact ⟨t, rfl, start⟩
      | succ n =>
          rw [List.take_succ_cons, runs, taken] at ran
          obtain ⟨last, ends, final⟩ := follows n s' ran
          refine ⟨last, ?_, final⟩
          have front : (first :: others.take n).reduceOption =
              first.toList ++ (others.take n).reduceOption := by
            cases first <;> rfl
          rw [List.take_succ_cons, front, runs_append, moved]
          exact ends

/-- When every step is matched by a step of another system or by none, every run is matched
    by a run of the other one. -/
theorem runs_simulation {τ δ : Type*} {other : τ → δ → Option τ} {sim : σ → τ → Prop}
    (simulates : ∀ s e s' t, sim s t → step s e = some s' →
      ∃ t', (t' = t ∨ ∃ d, other t d = some t') ∧ sim s' t')
    {events : List ε} {s' : σ} {t : τ} (start : sim s t) (ran : runs step s events = some s') :
    ∃ matched t', runs other t matched = some t' ∧ sim s' t' := by
  have stepwise : ∀ s e s' t, sim s t → step s e = some s' → ∃ (matched : Option δ) (t' : τ),
      True ∧ runs other t matched.toList = some t' ∧ sim s' t' := by
    intro s e s' t related taken
    obtain ⟨t', same | ⟨d, moved⟩, kept⟩ := simulates s e s' t related taken
    · exact ⟨none, t', trivial, same ▸ rfl, kept⟩
    · exact ⟨some d, t', trivial, by simp [runs, moved], kept⟩
  obtain ⟨matched, -, follows⟩ := runs_simulation_stepwise stepwise start ran
  obtain ⟨t', ends, final⟩ := follows events.length s' (by rwa [List.take_length])
  exact ⟨_, t', ends, final⟩

/-- A condition on the steps gives another one where an invariant, kept by the steps that
    meet the first, ties the two together. -/
theorem EachStep.of_invariant {inv : σ → Prop} {goal : σ → ε → Prop}
    (preserves : ∀ s e t, inv s → cond s e → step s e = some t → inv t)
    (implies : ∀ s e, inv s → cond s e → goal s e) {events : List ε} (start : inv s)
    (guarded : EachStep step cond s events) : EachStep step goal s events := by
  induction events generalizing s with
  | nil => trivial
  | cons e rest ih =>
      refine ⟨implies s e start guarded.1, fun next taken => ?_⟩
      exact ih (preserves s e next start guarded.1 taken) (guarded.2 next taken)

/-- Conditions that agree wherever an invariant holds agree on whole runs. -/
theorem eachStep_congr {inv : σ → Prop} {goal : σ → ε → Prop}
    (preserves : ∀ s e t, inv s → step s e = some t → inv t)
    (agree : ∀ s e, inv s → (cond s e ↔ goal s e)) {events : List ε} (start : inv s) :
    EachStep step cond s events ↔ EachStep step goal s events := by
  induction events generalizing s with
  | nil => exact Iff.rfl
  | cons e rest ih =>
      apply and_congr (agree s e start)
      apply forall_congr'
      intro next
      apply forall_congr'
      intro taken
      exact ih (preserves s e next start taken)

/-- A property that follows from such an invariant holds throughout the run. -/
theorem Throughout.of_invariant {inv good : σ → Prop}
    (preserves : ∀ s e t, inv s → cond s e → step s e = some t → inv t)
    (implies : ∀ s, inv s → good s) {events : List ε} (start : inv s)
    (guarded : EachStep step cond s events) : Throughout step good s events := by
  induction events generalizing s with
  | nil => exact implies s start
  | cons e rest ih =>
      refine ⟨implies s start, fun next taken => ?_⟩
      exact ih (preserves s e next start guarded.1 taken) (guarded.2 next taken)

/-- An invariant of the steps holds throughout. -/
theorem Throughout.of_forall {inv : σ → Prop}
    (preserves : ∀ s e t, inv s → step s e = some t → inv t) (events : List ε) (start : inv s) :
    Throughout step inv s events := by
  induction events generalizing s with
  | nil => exact start
  | cons e rest ih => exact ⟨start, fun next taken => ih (preserves s e next start taken)⟩

theorem Throughout.last {good : σ → Prop} {events : List ε}
    (held : Throughout step good s events) (ran : runs step s events = some t) : good t := by
  induction events generalizing s with
  | nil =>
      obtain rfl := Option.some.inj ran
      exact held
  | cons e rest ih =>
      obtain ⟨next, taken, later⟩ := Option.bind_eq_some_iff.mp ran
      exact ih (held.2 next taken) later

/-- When a step keeps the property exactly under the condition, a run that ends keeps
    it throughout exactly when all its steps meet the condition. -/
theorem throughout_iff_eachStep {inv good : σ → Prop}
    (preserves : ∀ s e t, inv s → step s e = some t → inv t)
    (exact_ : ∀ s e t, inv s → good s → step s e = some t → (good t ↔ cond s e))
    {events : List ε} (start : inv s) (initially : good s) (ran : runs step s events = some t) :
    Throughout step good s events ↔ EachStep step cond s events := by
  induction events generalizing s with
  | nil => exact ⟨fun _ => trivial, fun _ => initially⟩
  | cons e rest ih =>
      obtain ⟨next, taken, later⟩ := Option.bind_eq_some_iff.mp ran
      have only : ∀ other, step s e = some other → other = next := by
        intro other same
        rw [taken] at same
        exact (Option.some.inj same).symm
      have kept := exact_ s e next start initially taken
      constructor
      · intro held
        have rest_held := held.2 next taken
        have good_next : good next := by
          cases rest with
          | nil => exact rest_held
          | cons => exact rest_held.1
        refine ⟨kept.mp good_next, fun other same => ?_⟩
        obtain rfl := only other same
        exact (ih (preserves s e other start taken) good_next later).mp rest_held
      · intro guarded
        refine ⟨initially, fun other same => ?_⟩
        obtain rfl := only other same
        exact (ih (preserves s e other start taken) (kept.mpr guarded.1) later).mpr
          (guarded.2 other taken)

/-- What every counted step uses up bounds how many of them there are. -/
theorem tally_add_le {counts : σ → ε → Bool} {potential : σ → ℕ}
    (pays : ∀ s e t, step s e = some t → (counts s e).toNat + potential t ≤ potential s)
    {events : List ε} (ran : runs step s events = some t) :
    tally step counts s events + potential t ≤ potential s := by
  induction events generalizing s with
  | nil =>
      obtain rfl := Option.some.inj ran
      simp [tally]
  | cons e rest ih =>
      obtain ⟨next, taken, later⟩ := Option.bind_eq_some_iff.mp ran
      have first := pays s e next taken
      have after := ih later
      simp only [tally, taken, Option.elim_some]
      omega

/-- What every step spends comes out of the stock, what it gains goes in. -/
theorem tally_balanced {good : σ → Prop} {spends gains : σ → ε → Bool} {stock : σ → ℕ}
    (balanced : ∀ s e t, good s → step s e = some t →
      (spends s e).toNat + stock t = stock s + (gains s e).toNat)
    {events : List ε} (kept : Throughout step good s events)
    (ran : runs step s events = some t) :
    tally step spends s events + stock t = stock s + tally step gains s events := by
  induction events generalizing s with
  | nil =>
      obtain rfl := Option.some.inj ran
      simp [tally]
  | cons e rest ih =>
      obtain ⟨next, taken, later⟩ := Option.bind_eq_some_iff.mp ran
      have first := balanced s e next kept.1 taken
      have after := ih (kept.2 next taken) later
      simp only [tally, taken, Option.elim_some]
      omega

theorem tally_all {events : List ε} (ran : runs step s events = some t) :
    tally step (fun _ _ => true) s events = events.length := by
  induction events generalizing s with
  | nil => rfl
  | cons e rest ih =>
      obtain ⟨next, taken, later⟩ := Option.bind_eq_some_iff.mp ran
      simp only [tally, taken, Option.elim_some, ih later, List.length_cons, Bool.toNat_true]
      omega

/-- Where the events of the run all use something up, there are only so many of them. -/
theorem length_add_le_of_forall {ok : ε → Prop} {potential : σ → ℕ}
    (drops : ∀ s e t, ok e → step s e = some t → potential t < potential s)
    {events : List ε} (all : ∀ e ∈ events, ok e) (ran : runs step s events = some t) :
    events.length + potential t ≤ potential s := by
  induction events generalizing s with
  | nil =>
      obtain rfl := Option.some.inj ran
      simp
  | cons e rest ih =>
      obtain ⟨next, taken, later⟩ := Option.bind_eq_some_iff.mp ran
      have first := drops s e next (all e List.mem_cons_self) taken
      have after := ih (fun e member => all e (List.mem_cons_of_mem _ member)) later
      rw [List.length_cons]
      omega

/-- Where every step uses something up, some run comes to an end. -/
theorem exists_run_to_end {potential : σ → ℕ}
    (drops : ∀ s e t, step s e = some t → potential t < potential s) (s : σ) :
    ∃ events t, runs step s events = some t ∧ ∀ e, step t e = none := by
  induction left : potential s using Nat.strong_induction_on generalizing s with
  | h bound ih =>
      by_cases ended : ∀ e, step s e = none
      · exact ⟨[], s, rfl, ended⟩
      · obtain ⟨e, going⟩ := not_forall.mp ended
        obtain ⟨next, taken⟩ := Option.ne_none_iff_exists'.mp going
        obtain ⟨events, t, ran, stops⟩ := ih _ (left ▸ drops s e next taken) next rfl
        exact ⟨e :: events, t, by simp [runs, taken, ran], stops⟩

end Rules

/-! ## Steps that act by joins

Each event contributes an element of a join semilattice and a step lets it act on the
state.  When acting twice is acting with the join, only the join of all contributions
matters, and that does not depend on the order of the events.
-/

section Joins

variable {L : Type*} [SemilatticeSup L] [OrderBot L] {effect : ε → L} {events : List ε}

/-- What the events contribute together. -/
def joined (effect : ε → L) (events : List ε) : L :=
  ((events : Multiset ε).map effect).sup

@[simp] theorem joined_nil : joined effect [] = ⊥ := rfl

@[simp] theorem joined_cons (e : ε) (rest : List ε) :
    joined effect (e :: rest) = effect e ⊔ joined effect rest := by
  simp only [joined, ← Multiset.cons_coe, Multiset.map_cons, Multiset.sup_cons]

theorem joined_perm {order : List ε} (perm : order.Perm events) :
    joined effect order = joined effect events := by
  rw [joined, Multiset.coe_eq_coe.mpr perm, joined]

/-- The steps of some events act by joins, wherever an invariant holds. -/
structure ActsByJoins (step : σ → ε → Option σ) (effect : ε → L) (act : σ → L → σ)
    (inv : σ → Prop) (ok : ε → Prop) : Prop where
  acts : ∀ {s e}, inv s → ok e → step s e = some (act s (effect e))
  keeps : ∀ {s} (x), inv s → inv (act s x)
  bot : ∀ {s}, inv s → act s ⊥ = s
  twice : ∀ {s x y}, inv s → act (act s x) y = act s (x ⊔ y)

theorem ActsByJoins.runs_eq {step : σ → ε → Option σ} {act : σ → L → σ} {inv : σ → Prop}
    {ok : ε → Prop} (joins : ActsByJoins step effect act inv ok) {s : σ} (start : inv s)
    (all : ∀ e ∈ events, ok e) : runs step s events = some (act s (joined effect events)) := by
  induction events generalizing s with
  | nil => rw [joined_nil, joins.bot start, runs]
  | cons e rest ih =>
      have later := ih (joins.keeps (effect e) start) fun e member =>
        all e (List.mem_cons_of_mem _ member)
      rw [runs, joins.acts start (all e List.mem_cons_self), Option.bind_some, later,
        joins.twice start, joined_cons]

end Joins

end Bulkmail.Library
