import Bulkmail.Ethereum.NonceManager
import Bulkmail.Library.Runs

/-! # Histories of the nonce manager

Any number of tasks and the block-triggered syncs call one `NonceManager`, and its mutex
puts the calls in some order.  Two facts hold whatever that order is.  Between two
assignments the calls act through joins: updates raise the baseline to a maximum and
releases take nonces out of flight, so nothing depends on which came first.  And an
assignment takes the first free nonce, so the gaps that releases leave are filled from
below before a nonce is used that was never handed out.
-/

namespace Bulkmail.Ethereum

open Library Sender

/-- The calls of the API; a sync comes with the chain's answer to it, however stale. -/
inductive NonceCall where
  | assign
  | release (nonce : ℕ)
  | update (newNonce : ℕ)
  | sync (fetched : Except ChainError ℕ)
  deriving DecidableEq

namespace NonceCall

/-- The value a call passes to `update_current_nonce`. -/
def updatesTo : NonceCall → Option ℕ
  | .update newNonce => some newNonce
  | .sync (.ok onChainNonce) => some onChainNonce
  | .assign | .release _ | .sync (.error _) => none

/-- What a call asks for: a baseline and nonces to release. -/
def effect : NonceCall → ℕ × Finset ℕ
  | .release nonce => (0, {nonce})
  | .update newNonce => (newNonce, ∅)
  | .sync (.ok onChainNonce) => (onChainNonce, ∅)
  | .assign | .sync (.error _) => (0, ∅)

variable {calls : List NonceCall}

theorem mem_joined_effect {nonce : ℕ} :
    nonce ∈ (joined effect calls).2 ↔ .release nonce ∈ calls := by
  induction calls with
  | nil => simp
  | cons call rest ih =>
      rw [joined_cons, Prod.snd_sup, Finset.sup_eq_union, Finset.mem_union, ih, List.mem_cons]
      apply or_congr_left
      cases call with
      | release other => simp [effect]
      | assign | update => simp [effect]
      | sync fetched => cases fetched <;> simp [effect]

theorem fst_effect (call : NonceCall) : call.effect.1 = call.updatesTo.getD 0 := by
  cases call with
  | assign | release | update => rfl
  | sync fetched => cases fetched <;> rfl

/-- The joined baseline is the largest value passed on, or the old one. -/
theorem isGreatest_joined_effect (current : ℕ) (calls : List NonceCall) :
    IsGreatest (insert current {nonce | ∃ call ∈ calls, call.updatesTo = some nonce})
      (max current (joined effect calls).1) := by
  induction calls with
  | nil => simp [IsGreatest, upperBounds]
  | cons call rest ih =>
      rw [joined_cons, Prod.fst_sup, fst_effect, max_left_comm]
      cases passed : call.updatesTo with
      | none => simpa [passed] using ih
      | some newNonce =>
          have split : {nonce | ∃ other ∈ call :: rest, other.updatesTo = some nonce} =
              insert newNonce {nonce | ∃ other ∈ rest, other.updatesTo = some nonce} := by
            ext nonce
            simp [passed, eq_comm (a := nonce)]
          rw [split, Set.insert_comm]
          exact ih.insert newNonce

end NonceCall

namespace NonceState

def step (state : NonceState) : NonceCall → Option NonceState
  | .assign => state.getNextAvailableNonce.map (·.2)
  | .release nonce => some (state.markNonceAvailable nonce)
  | .update newNonce => some (state.updateCurrentNonce newNonce)
  | .sync fetched => some (state.syncNonce fetched).2

/-- The nonce a call hands out. -/
def handsOut (state : NonceState) : NonceCall → Finset ℕ
  | .assign => (state.getNextAvailableNonce.map (·.1)).toFinset
  | .release _ | .update _ | .sync _ => ∅

def Reachable (state : NonceState) : Prop :=
  ∃ currentNonce calls, runs step (new currentNonce) calls = some state

/-- The nonces of `asked.2` released, and the baseline raised to `asked.1`. -/
def settle (state : NonceState) (asked : ℕ × Finset ℕ) : NonceState where
  current := max state.current asked.1
  inFlight := (state.inFlight \ asked.2).filter (max state.current asked.1 ≤ ·)

variable {state state' : NonceState} {call : NonceCall}

/-- What a call does to the state.  A sync without an answer updates to nothing new. -/
inductive Called (state : NonceState) (call : NonceCall) (state' : NonceState) : Prop where
  | assign (nonce : ℕ) : call = .assign → state.getNextAvailableNonce = some (nonce, state') →
      Called state call state'
  | release (nonce : ℕ) : call = .release nonce → state' = state.markNonceAvailable nonce →
      Called state call state'
  | update : state' = state.updateCurrentNonce (call.updatesTo.getD 0) → Called state call state'

theorem step_spec (stepped : state.step call = some state') : Called state call state' := by
  cases call with
  | assign =>
      obtain ⟨⟨nonce, next⟩, assigned, rfl⟩ := Option.map_eq_some_iff.mp stepped
      exact .assign nonce rfl assigned
  | release nonce =>
      cases stepped
      exact .release nonce rfl rfl
  | update newNonce =>
      cases stepped
      exact .update rfl
  | sync fetched =>
      cases stepped
      cases fetched with
      | ok onChainNonce => exact .update rfl
      | error => exact .update (by simp [syncNonce, updateCurrentNonce, NonceCall.updatesTo])

theorem current_step (stepped : state.step call = some state') :
    state.current ≤ state'.current := by
  cases step_spec stepped with
  | assign nonce _ assigned => rw [(getNextAvailableNonce_spec assigned).2]
  | release nonce _ same => rw [same, markNonceAvailable]
  | update same =>
      rw [same, current_updateCurrentNonce]
      exact le_max_left ..

theorem inFlight_step_subset (quiet : call ≠ .assign) (stepped : state.step call = some state') :
    state'.inFlight ⊆ state.inFlight := by
  cases step_spec stepped with
  | assign nonce drawing _ => exact absurd drawing quiet
  | release nonce _ same =>
      rw [same]
      exact Finset.erase_subset nonce state.inFlight
  | update same =>
      rw [same]
      exact inFlight_updateCurrentNonce_subset

theorem floored_step (floored : state.Floored) (stepped : state.step call = some state') :
    state'.Floored := by
  cases step_spec stepped with
  | assign nonce _ assigned => exact floored_assigned floored assigned
  | release nonce _ same =>
      rw [same]
      exact floored_markNonceAvailable floored nonce
  | update same =>
      rw [same]
      exact floored_updateCurrentNonce floored _

theorem floored_run {calls : List NonceCall} (floored : state.Floored)
    (ran : runs step state calls = some state') : state'.Floored :=
  runs_invariant (fun _ _ _ floored stepped => floored_step floored stepped) floored ran

theorem Reachable.floored (reachable : state.Reachable) : state.Floored := by
  obtain ⟨currentNonce, calls, ran⟩ := reachable
  exact floored_run (floored_new currentNonce) ran

theorem runs_release (released : List ℕ) :
    runs step state (released.map .release) =
      some (released.foldl markNonceAvailable state) := by
  induction released generalizing state with
  | nil => rfl
  | cons nonce rest ih => exact ih

theorem floored_settle (state : NonceState) (asked : ℕ × Finset ℕ) :
    (state.settle asked).Floored :=
  fun _ member => (Finset.mem_filter.mp member).2

theorem settle_settle (state : NonceState) (first second : ℕ × Finset ℕ) :
    (state.settle first).settle second = state.settle (first ⊔ second) := by
  have raised : max (max state.current first.1) second.1 =
      max state.current (first ⊔ second).1 := max_assoc ..
  rw [settle, settle, settle, NonceState.mk.injEq, raised]
  refine ⟨rfl, ?_⟩
  ext nonce
  simp only [Finset.mem_filter, Finset.mem_sdiff, Prod.snd_sup, Finset.sup_eq_union,
    Finset.mem_union, not_or]
  constructor
  · rintro ⟨⟨⟨⟨flying, kept⟩, -⟩, kept'⟩, above⟩
    exact ⟨⟨flying, kept, kept'⟩, above⟩
  · rintro ⟨⟨flying, kept, kept'⟩, above⟩
    have above_first : max state.current first.1 ≤ nonce :=
      (max_le_max_left _ le_sup_left).trans above
    exact ⟨⟨⟨⟨flying, kept⟩, above_first⟩, kept'⟩, above⟩

theorem settle_bot (floored : state.Floored) : state.settle ⊥ = state := by
  obtain ⟨current, inFlight⟩ := state
  simp only [settle, Prod.fst_bot, Prod.snd_bot, Nat.bot_eq_zero, Nat.max_zero,
    Finset.bot_eq_empty, Finset.sdiff_empty, NonceState.mk.injEq, true_and]
  exact Finset.filter_true_of_mem floored

theorem updateCurrentNonce_eq_settle (floored : state.Floored) (newNonce : ℕ) :
    state.updateCurrentNonce newNonce = state.settle (newNonce, ∅) := by
  unfold updateCurrentNonce
  split
  · rename_i above
    rw [settle, Nat.max_eq_right above.le, Finset.sdiff_empty]
  · rename_i below
    rw [settle, Nat.max_eq_left (Nat.not_lt.mp below), Finset.sdiff_empty,
      Finset.filter_true_of_mem floored]

theorem markNonceAvailable_eq_settle (floored : state.Floored) (nonce : ℕ) :
    state.markNonceAvailable nonce = state.settle (0, {nonce}) := by
  have above : ∀ other ∈ state.inFlight.erase nonce, state.current ≤ other :=
    floored_markNonceAvailable floored nonce
  rw [markNonceAvailable, settle, Nat.max_zero, Finset.sdiff_singleton_eq_erase,
    Finset.filter_true_of_mem above]

/-- Without an assignment, what a call asks for is all that matters of it. -/
theorem step_eq_settle (floored : state.Floored) (quiet : call ≠ .assign) :
    state.step call = some (state.settle call.effect) := by
  cases call with
  | assign => exact absurd rfl quiet
  | release nonce => exact congrArg some (markNonceAvailable_eq_settle floored nonce)
  | update newNonce => exact congrArg some (updateCurrentNonce_eq_settle floored newNonce)
  | sync fetched =>
      cases fetched with
      | ok onChainNonce => exact congrArg some (updateCurrentNonce_eq_settle floored onChainNonce)
      | error => exact congrArg some (settle_bot floored).symm

theorem actsByJoins_settle :
    ActsByJoins step NonceCall.effect settle Floored (· ≠ .assign) where
  acts := step_eq_settle
  keeps := fun asked _ => floored_settle _ asked
  bot := settle_bot
  twice := fun _ => settle_settle _ _ _

/-- In every state a run passes, nothing below the baseline is in flight and the baseline
    has not moved back. -/
theorem throughout_risen (floored : state.Floored) (calls : List NonceCall) :
    Throughout step (fun passed => state.current ≤ passed.current ∧ passed.Floored) state
      calls := by
  apply Throughout.of_forall _ calls ⟨le_rfl, floored⟩
  intro passed call next risen stepped
  exact ⟨risen.1.trans (current_step stepped), floored_step risen.2 stepped⟩

/-- Without an assignment in between, every order of the calls leads to one state: the
    baseline is the largest of the old one and all updates, and what is in flight is what
    was, without the released nonces and without those below the baseline. -/
theorem calls_commute {calls : List NonceCall} (reachable : state.Reachable)
    (quiet : .assign ∉ calls) :
    ∃ last : NonceState,
      IsGreatest (insert state.current {nonce | ∃ call ∈ calls, call.updatesTo = some nonce})
        last.current ∧
      (∀ nonce, nonce ∈ last.inFlight ↔
        nonce ∈ state.inFlight ∧ .release nonce ∉ calls ∧ last.current ≤ nonce) ∧
      ∀ order : List NonceCall, order.Perm calls →
        runs step state order = some last ∧
        Throughout step (fun passed => state.current ≤ passed.current ∧ passed.Floored) state
          order := by
  have floored := reachable.floored
  refine ⟨state.settle (joined NonceCall.effect calls),
    NonceCall.isGreatest_joined_effect state.current calls, fun nonce => ?_, fun order perm => ?_⟩
  · simp only [settle, Finset.mem_filter, Finset.mem_sdiff, NonceCall.mem_joined_effect, and_assoc]
  · refine ⟨?_, throughout_risen floored order⟩
    rw [← joined_perm perm]
    apply actsByJoins_settle.runs_eq floored
    intro call member same
    exact quiet (perm.subset (same ▸ member))

/-- Four nonces out, one comes back, one update is real and one sync is stale. -/
theorem calls_commute_on_mixed_calls :
    let state : NonceState := ⟨0, {3, 2, 1, 0}⟩
    let calls : List NonceCall := [.update 1, .release 2, .sync (.ok 0)]
    state.Reachable ∧ .assign ∉ calls ∧
      ∀ order, order.Perm calls → runs step state order = some ⟨1, {3, 1}⟩ := by
  intro state calls
  have reachable : state.Reachable :=
    ⟨0, [.assign, .assign, .assign, .assign], by decide +kernel⟩
  have quiet : .assign ∉ calls := by decide
  obtain ⟨last, -, -, orders⟩ := calls_commute reachable quiet
  refine ⟨reachable, quiet, fun order perm => ?_⟩
  rw [(orders order perm).1, ← (orders calls (.refl _)).1]
  decide +kernel

end NonceState

/-! ## Gaps -/

/-- The manager's state beside the nonces that were ever handed out. -/
structure NonceLog where
  state : NonceState
  handedOut : Finset ℕ
  deriving DecidableEq

namespace NonceLog

open NonceState

/-- A state met in the middle: what is free below a nonce in flight was handed out before it. -/
def start (state : NonceState) : NonceLog :=
  ⟨state, state.inFlight.biUnion (Finset.Icc state.current)⟩

def step (log : NonceLog) (call : NonceCall) : Option NonceLog :=
  (log.state.step call).map fun state => ⟨state, log.state.handsOut call ∪ log.handedOut⟩

/-- The nonces that were handed out and came back, and that the baseline has not passed. -/
def gaps (log : NonceLog) : Finset ℕ :=
  log.handedOut.filter fun nonce => log.state.current ≤ nonce ∧ nonce ∉ log.state.inFlight

/-- From the baseline on, nonces are handed out without leaving any out. -/
structure Dense (log : NonceLog) : Prop where
  flying : ∀ nonce ∈ log.state.inFlight, log.state.current ≤ nonce → nonce ∈ log.handedOut
  below : ∀ nonce ∈ log.handedOut, ∀ lower, log.state.current ≤ lower → lower ≤ nonce →
    lower ∈ log.handedOut

variable {log log' : NonceLog} {call : NonceCall} {nonce : ℕ} {next : NonceState}

theorem dense_start (state : NonceState) : Dense (start state) where
  flying := by
    intro nonce flying above
    exact Finset.mem_biUnion.mpr ⟨nonce, flying, Finset.mem_Icc.mpr ⟨above, le_rfl⟩⟩
  below := by
    intro nonce before lower above le
    obtain ⟨highest, flying, within⟩ := Finset.mem_biUnion.mp before
    have under := le.trans (Finset.mem_Icc.mp within).2
    exact Finset.mem_biUnion.mpr ⟨highest, flying, Finset.mem_Icc.mpr ⟨above, under⟩⟩

theorem step_cases (stepped : log.step call = some log') :
    (∃ nonce, log.state.getNextAvailableNonce = some (nonce, log'.state) ∧
      log'.handedOut = insert nonce log.handedOut) ∨
    log'.handedOut = log.handedOut ∧ log'.state.inFlight ⊆ log.state.inFlight ∧
      log.state.current ≤ log'.state.current := by
  obtain ⟨next, taken, rfl⟩ := Option.map_eq_some_iff.mp stepped
  cases call with
  | assign =>
      obtain ⟨⟨nonce, next⟩, assigned, rfl⟩ := Option.map_eq_some_iff.mp taken
      refine .inl ⟨nonce, assigned, ?_⟩
      simp [handsOut, assigned]
  | release | update | sync =>
      refine .inr ⟨?_, inFlight_step_subset (by simp) taken, current_step taken⟩
      simp [handsOut]

theorem Dense.below_least (dense : Dense log) {lower : ℕ}
    (least : IsLeast {free | log.state.current ≤ free ∧ free ∉ log.state.inFlight} nonce)
    (above : log.state.current ≤ lower) (lt : lower < nonce) : lower ∈ log.handedOut := by
  have flying : lower ∈ log.state.inFlight := by
    by_contra free
    exact absurd (least.2 ⟨above, free⟩) (Nat.not_le.mpr lt)
  exact dense.flying lower flying above

theorem dense_step (dense : Dense log) (stepped : log.step call = some log') : Dense log' := by
  obtain ⟨nonce, assigned, handedOut⟩ | ⟨handedOut, fewer, risen⟩ := step_cases stepped
  · obtain ⟨least, -, same⟩ := getNextAvailableNonce_eq_some_iff.mp assigned
    constructor
    · intro other flying above
      rw [same] at flying above
      rw [handedOut]
      cases Finset.mem_insert.mp flying with
      | inl drawn => exact drawn ▸ Finset.mem_insert_self _ _
      | inr held => exact Finset.mem_insert_of_mem (dense.flying other held above)
    · intro other given lower above le
      rw [same] at above
      rw [handedOut] at given ⊢
      cases Finset.mem_insert.mp given with
      | inl drawn =>
          subst drawn
          cases Nat.lt_or_eq_of_le le with
          | inl lt => exact Finset.mem_insert_of_mem (dense.below_least least above lt)
          | inr eq => exact eq ▸ Finset.mem_insert_self _ _
      | inr earlier => exact Finset.mem_insert_of_mem (dense.below other earlier lower above le)
  · constructor
    · intro other flying above
      rw [handedOut]
      exact dense.flying other (fewer flying) (risen.trans above)
    · intro other given lower above le
      rw [handedOut] at given ⊢
      exact dense.below other given lower (risen.trans above) le

/-- An assignment fills the lowest gap, and without gaps it takes a nonce above all others. -/
theorem Dense.fills (dense : Dense log)
    (assigned : log.state.getNextAvailableNonce = some (nonce, next)) :
    (log.gaps.Nonempty → IsLeast ↑log.gaps nonce) ∧
      (log.gaps = ∅ → ∀ other ∈ log.handedOut, other < nonce) := by
  obtain ⟨least, -, -⟩ := getNextAvailableNonce_eq_some_iff.mp assigned
  have filled : ∀ other ∈ log.handedOut, nonce ≤ other → nonce ∈ log.gaps := by
    intro other before le
    have again := dense.below other before nonce least.1.1 le
    exact Finset.mem_filter.mpr ⟨again, least.1⟩
  constructor
  · intro some_
    obtain ⟨gap, open_⟩ := some_
    have first : nonce ∈ lowerBounds (↑log.gaps : Set ℕ) :=
      fun gap open_ => least.2 (Finset.mem_filter.mp open_).2
    exact ⟨filled gap (Finset.mem_filter.mp open_).1 (first open_), first⟩
  · intro none_ other before
    apply Nat.not_le.mp
    intro le
    simpa [none_] using filled other before le

/-- `get_next_available_nonce` takes the first nonce from the baseline on that is not in
    flight, which is there as long as the baseline and the size of the set allow it.  After
    any history it is the lowest gap, and only without gaps a nonce above all handed out. -/
theorem assigns_least_gap (state : NonceState) :
    (state.current + state.inFlight.card < u64Size →
      ∃ nonce, state.getNextAvailableNonce =
          some (nonce, { state with inFlight := insert nonce state.inFlight }) ∧
        IsLeast {free | state.current ≤ free ∧ free ∉ state.inFlight} nonce ∧
        nonce ≤ state.current + state.inFlight.card) ∧
    ∀ calls log, runs step (start state) calls = some log →
      ∀ nonce next, log.state.getNextAvailableNonce = some (nonce, next) →
        (log.gaps.Nonempty → IsLeast ↑log.gaps nonce) ∧
        (log.gaps = ∅ → ∀ other ∈ log.handedOut, other < nonce) := by
  constructor
  · intro room
    obtain ⟨nonce, least, near⟩ := exists_isLeast_free state.current state.inFlight
    refine ⟨nonce, ?_, least, near⟩
    exact getNextAvailableNonce_eq_some_iff.mpr ⟨least, by omega, rfl⟩
  · intro calls log ran nonce next assigned
    have dense := runs_invariant (fun s call t dense stepped => dense_step dense stepped)
      (dense_start state) ran
    exact dense.fills assigned

/-- Two of three nonces come back, the higher one first; the lower one goes out first. -/
theorem assigns_least_gap_after_releases :
    let calls : List NonceCall := [.assign, .assign, .assign, .release 1, .release 0]
    ∃ log nonce next, runs step (start (.new 0)) calls = some log ∧ log.gaps = {1, 0} ∧
      log.state.getNextAvailableNonce = some (nonce, next) ∧ IsLeast {0, 1} nonce := by
  intro calls
  let log : NonceLog := ⟨⟨0, {2}⟩, {2, 1, 0}⟩
  have ran : runs step (start (.new 0)) calls = some log := by decide +kernel
  have gaps : log.gaps = {1, 0} := by decide +kernel
  obtain ⟨nonce, assigned, -⟩ := (assigns_least_gap log.state).1 (by decide +kernel)
  refine ⟨log, nonce, _, ran, gaps, assigned, ?_⟩
  have least := ((assigns_least_gap (.new 0)).2 calls log ran nonce _ assigned).1
    (by simp [gaps])
  simpa [gaps, Set.pair_comm] using least

end NonceLog

end Bulkmail.Ethereum
