import Bulkmail.Ethereum.Discipline
import Bulkmail.Ethereum.NonceCalls

/-! # The baseline after a confirmation

`EthRetryStrategy::handle_confirmed` passes the nonce that was just used to
`update_current_nonce`, which takes the next free one: that is what a sync passes.  The
baseline therefore stops at the confirmed nonce, and that nonce stays in flight, until
something moves the baseline further.  A ledger beside the system records the nonces that
were ever assigned and those for which `handle_confirmed` has completed.
-/

namespace Bulkmail.Ethereum

open Library Sender

structure Ledger where
  system : System
  assigned : Finset ℕ
  handled : Finset ℕ
  deriving DecidableEq

namespace System

open EthTask

/-- The nonces an event hands out. -/
def assigns (s : System) (event : SystemEvent) : Finset ℕ :=
  s.marked (fun task answer => (task.draws s.nonces answer).toFinset) event

/-- The nonces for which an event completes `handle_confirmed`. -/
def handles (s : System) (event : SystemEvent) : Finset ℕ := s.marked confirms event

/-- The baseline has passed a nonce before its confirmation is handled. -/
def ConfirmsBelow (s : System) (event : SystemEvent) : Prop :=
  ∀ nonce ∈ s.handles event, nonce < s.nonces.current

instance (s : System) : DecidablePred s.ConfirmsBelow := fun event =>
  inferInstanceAs (Decidable (∀ nonce ∈ s.handles event, nonce < s.nonces.current))

variable {s s' : System} {event : SystemEvent}

/-- What an event does to the nonce manager. -/
inductive Renonced (s : System) (event : SystemEvent) (nonces : NonceState) : Prop where
  | update (newNonce : ℕ) : s.handles event ⊆ {newNonce} →
      nonces = s.nonces.updateCurrentNonce newNonce → Renonced s event nonces
  | assign (nonce : ℕ) : s.handles event = ∅ → nonce ∈ s.assigns event →
      s.nonces.getNextAvailableNonce = some (nonce, nonces) → Renonced s event nonces
  | release (released : List ℕ) : s.handles event = ∅ →
      nonces = released.foldl NonceState.markNonceAvailable s.nonces → Renonced s event nonces

theorem renonced_step (counted : ∀ task ∈ s.tasks, task.WellCounted)
    (stepped : s.step event = some s') : Renonced s event s'.nonces := by
  cases event with
  | spawn =>
      cases stepped
      exact .release [] rfl rfl
  | sync onChainNonce =>
      cases stepped
      exact .update onChainNonce (by simp [handles, marked]) rfl
  | task i nowMs answer =>
      obtain ⟨task, next, nonces, found, advanced, rfl⟩ := task_step_spec stepped
      have handles_eq : s.handles (.task i nowMs answer) = task.confirms answer := by
        simp [handles, marked, found]
      have moved := nonces_advanced (counted task (List.mem_of_getElem? found))
        (advance_spec advanced)
      obtain ⟨nonce, confirming, rfl⟩ | ⟨quiet, ⟨nonce, drawn, taken⟩ | rfl⟩ := moved
      · exact .update nonce (by simp [handles_eq, confirming]) rfl
      · refine .assign nonce (handles_eq.trans quiet) ?_ taken
        simp [assigns, marked, found, drawn]
      · exact .release _ (handles_eq.trans quiet) rfl

theorem Renonced.exists_calls {nonces : NonceState} (renonced : Renonced s event nonces) :
    ∃ calls, runs NonceState.step s.nonces calls = some nonces := by
  cases renonced with
  | update newNonce _ same => exact ⟨[.update newNonce], congrArg some same.symm⟩
  | assign nonce _ _ drawn =>
      refine ⟨[.assign], ?_⟩
      simp [runs, NonceState.step, drawn]
  | release released _ same =>
      exact ⟨released.map .release, same ▸ NonceState.runs_release released⟩

end System

namespace NonceState

variable {state : NonceState}

theorem current_foldl_markNonceAvailable (released : List ℕ) :
    (released.foldl markNonceAvailable state).current = state.current := by
  induction released generalizing state with
  | nil => rfl
  | cons nonce rest ih => exact ih

theorem inFlight_foldl_markNonceAvailable_subset (released : List ℕ) :
    (released.foldl markNonceAvailable state).inFlight ⊆ state.inFlight := by
  induction released generalizing state with
  | nil => exact Finset.Subset.refl _
  | cons nonce rest ih => exact ih.trans (Finset.erase_subset nonce state.inFlight)

end NonceState

namespace Ledger

open NonceState

def new (chainId currentNonce : ℕ) : Ledger := ⟨.new chainId currentNonce, ∅, ∅⟩

def step (l : Ledger) (event : SystemEvent) : Option Ledger :=
  (l.system.step event).map fun system =>
    { system
      assigned := l.system.assigns event ∪ l.assigned
      handled := l.system.handles event ∪ l.handled }

/-- The baseline is past every handled nonce, and what is in flight was assigned and is
    not handled yet. -/
def Settled (l : Ledger) : Prop :=
  (∀ nonce ∈ l.handled, nonce < l.system.nonces.current) ∧
    l.system.nonces.inFlight ⊆ l.assigned \ l.handled

instance : DecidablePred Settled := fun l =>
  inferInstanceAs (Decidable ((∀ nonce ∈ l.handled, nonce < l.system.nonces.current) ∧
    l.system.nonces.inFlight ⊆ l.assigned \ l.handled))

/-- What holds of every reachable ledger, whatever is confirmed when. -/
structure Sound (l : Ledger) : Prop where
  counted : ∀ task ∈ l.system.tasks, task.WellCounted
  floored : l.system.nonces.Floored
  assigned : l.system.nonces.inFlight ⊆ l.assigned

variable {l l' : Ledger} {event : SystemEvent}

theorem step_cases (stepped : l.step event = some l') :
    l.system.step event = some l'.system ∧ l'.assigned = l.system.assigns event ∪ l.assigned ∧
      l'.handled = l.system.handles event ∪ l.handled := by
  obtain ⟨system, taken, rfl⟩ := Option.map_eq_some_iff.mp stepped
  exact ⟨taken, rfl, rfl⟩

theorem sound_new (chainId currentNonce : ℕ) : Sound (new chainId currentNonce) where
  counted := by simp [new, System.new]
  floored := floored_new currentNonce
  assigned := Finset.Subset.refl _

theorem sound_step (sound : Sound l) (stepped : l.step event = some l') : Sound l' := by
  obtain ⟨taken, assigned, -⟩ := step_cases stepped
  have before : l.system.nonces.inFlight ⊆ l'.assigned := by
    rw [assigned]
    exact sound.assigned.trans Finset.subset_union_right
  refine ⟨System.counted_step sound.counted taken, ?_, ?_⟩
  · obtain ⟨calls, went⟩ := (System.renonced_step sound.counted taken).exists_calls
    exact floored_run sound.floored went
  · cases System.renonced_step sound.counted taken with
    | update newNonce _ same =>
        rw [same]
        exact inFlight_updateCurrentNonce_subset.trans before
    | assign nonce _ given drawn =>
        rw [(getNextAvailableNonce_spec drawn).2, assigned]
        apply Finset.insert_subset
        · exact Finset.mem_union_left _ given
        · exact assigned ▸ before
    | release released _ same =>
        rw [same]
        exact (inFlight_foldl_markNonceAvailable_subset released).trans before

/-- A nonce below the baseline is not in flight, so the baseline decides. -/
theorem settled_iff (sound : Sound l) :
    l.Settled ↔ ∀ nonce ∈ l.handled, nonce < l.system.nonces.current := by
  constructor
  · exact fun settled => settled.1
  · intro below
    refine ⟨below, fun nonce flying => ?_⟩
    apply Finset.mem_sdiff.mpr
    refine ⟨sound.assigned flying, fun handled => ?_⟩
    exact absurd (below nonce handled) (Nat.not_lt.mpr (sound.floored nonce flying))

/-- A step leaves the ledger settled exactly when it handles only confirmations of nonces
    that the baseline has passed already. -/
theorem settled_step_iff (sound : Sound l) (settled : l.Settled)
    (stepped : l.step event = some l') : l'.Settled ↔ l.system.ConfirmsBelow event := by
  rw [settled_iff (sound_step sound stepped)]
  obtain ⟨taken, -, handled⟩ := step_cases stepped
  have apart : (∀ nonce ∈ l'.handled, nonce < l'.system.nonces.current) ↔
      (∀ nonce ∈ l.system.handles event, nonce < l'.system.nonces.current) ∧
        ∀ nonce ∈ l.handled, nonce < l'.system.nonces.current := by
    rw [handled]
    simp only [Finset.mem_union, or_imp, forall_and]
  rw [apart]
  have unmoved : l'.system.nonces.current = l.system.nonces.current →
      ((∀ nonce ∈ l.system.handles event, nonce < l'.system.nonces.current) ∧
        (∀ nonce ∈ l.handled, nonce < l'.system.nonces.current) ↔
          l.system.ConfirmsBelow event) := by
    intro same
    rw [same]
    exact ⟨fun held => held.1, fun below => ⟨below, settled.1⟩⟩
  cases System.renonced_step sound.counted taken with
  | update newNonce handles same =>
      have current : l'.system.nonces.current = max l.system.nonces.current newNonce := by
        rw [same, current_updateCurrentNonce]
      rw [current]
      constructor
      · intro held nonce confirmed
        obtain rfl := Finset.mem_singleton.mp (handles confirmed)
        exact (lt_max_iff.mp (held.1 nonce confirmed)).resolve_right (lt_irrefl nonce)
      · intro below
        exact ⟨fun nonce confirmed => lt_max_of_lt_left (below nonce confirmed),
          fun nonce before => lt_max_of_lt_left (settled.1 nonce before)⟩
  | assign nonce _ _ drawn =>
      exact unmoved (by rw [(getNextAvailableNonce_spec drawn).2])
  | release released _ same =>
      exact unmoved (by rw [same, current_foldl_markNonceAvailable])

/-- Along every run of tasks and syncs, the baseline is past every nonce whose confirmation
    was handled exactly when it was past it before `handle_confirmed` was called. -/
theorem settled_throughout_iff {chainId currentNonce : ℕ} {events : List SystemEvent}
    {last : Ledger} (ran : runs step (new chainId currentNonce) events = some last) :
    Throughout step Settled (new chainId currentNonce) events ↔
      EachStep step (fun l event => l.system.ConfirmsBelow event) (new chainId currentNonce)
        events := by
  refine throughout_iff_eachStep (fun l event l' sound stepped => sound_step sound stepped) ?_
    (sound_new chainId currentNonce) ?_ ran
  · exact fun l event l' sound settled stepped => settled_step_iff sound settled stepped
  · exact (settled_iff (sound_new chainId currentNonce)).mpr (by simp [new])

/-- A block's sync arrives between the receipt and `handle_confirmed`. -/
theorem settled_when_synced_first :
    let events := [.spawn sampleMessage, .task 0 0 .ready, .task 0 0 .ready,
      .task 0 0 (.fee (.ok ⟨2, 2⟩)), .task 0 0 .ready, .task 0 0 (.sent (.ok 5)),
      .task 0 0 (.registered (.ok ())), .task 0 0 (.watched true),
      .task 0 0 (.receipt (.ok (some true))), .sync 1, .task 0 0 .ready]
    (runs step (new 1 0) events).map (fun l => (l.system.nonces, l.handled)) =
      some (⟨1, ∅⟩, {0}) ∧
    Throughout step Settled (new 1 0) events := by
  intro events
  have shown : (runs step (new 1 0) events).map (fun l => (l.system.nonces, l.handled)) =
      some (⟨1, ∅⟩, {0}) := by decide +kernel
  obtain ⟨last, ran, -⟩ := Option.map_eq_some_iff.mp shown
  exact ⟨shown, (settled_throughout_iff ran).mpr (by decide +kernel)⟩

/-- Without the sync the confirmed nonce is neither below the baseline nor out of flight. -/
theorem unsettled_after_first_confirmation :
    let events := [.spawn sampleMessage, .task 0 0 .ready, .task 0 0 .ready,
      .task 0 0 (.fee (.ok ⟨2, 2⟩)), .task 0 0 .ready, .task 0 0 (.sent (.ok 5)),
      .task 0 0 (.registered (.ok ())), .task 0 0 (.watched true),
      .task 0 0 (.receipt (.ok (some true))), .task 0 0 .ready]
    (runs step (new 1 0) events).map (fun l => (l.system.nonces, l.handled)) =
      some (⟨0, {0}⟩, {0}) ∧
    ¬ Throughout step Settled (new 1 0) events := by
  intro events
  have shown : (runs step (new 1 0) events).map (fun l => (l.system.nonces, l.handled)) =
      some (⟨0, {0}⟩, {0}) := by decide +kernel
  obtain ⟨last, ran, state⟩ := Option.map_eq_some_iff.mp shown
  obtain ⟨nonces, handled⟩ := Prod.mk.inj state
  refine ⟨shown, fun settled => ?_⟩
  have below := (settled.last ran).1 0 (by simp [handled])
  rw [nonces] at below
  exact lt_irrefl 0 below

end Ledger

end Bulkmail.Ethereum
