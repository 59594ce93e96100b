import Bulkmail.Mempool.Panics

/-! # What stays behind

Two things the tracker never gives back.  An account stays in the map once it is there,
whatever becomes of its transactions.  And a key of `base_fee_eligibility` whose
transaction was replaced or drained stays too: as many of them as the global capacity keep
every transaction out, for good.
-/

namespace Bulkmail.Mempool.MempoolInner

open Library

variable {s s' : MempoolInner} {tx : PendingTx} {key : PriorityKey} {block : BlockUpdate}
variable {a : Address} {q q' : AccountQueue}

/-! ## Accounts -/

/-- The account that is in the map after the event, also if it was not before. -/
def admitted (s : MempoolInner) : MempoolEvent → Finset Address
  | .pendingTransaction tx => if s.TurnedAway tx then ∅ else {tx.sender}
  | .newBlock _ => ∅

theorem keys_setQueue :
    (s.setQueue a q).accountQueues.keys = s.accountQueues.keys ∪ {a} := by
  ext b
  simp [setQueue, Finmap.mem_keys, Finmap.mem_insert]

theorem keys_setQueue_of_known (known : s.accountQueues.lookup a = some q') :
    (s.setQueue a q).accountQueues.keys = s.accountQueues.keys := by
  have member : a ∈ s.accountQueues.keys :=
    Finmap.mem_keys.mpr (Finmap.mem_of_lookup_eq_some known)
  rw [keys_setQueue, Finset.union_eq_left, Finset.singleton_subset_iff]
  exact member

theorem keys_evicted (evicted : Evicted s key s') :
    s'.accountQueues.keys = s.accountQueues.keys := by
  cases evicted with
  | stale => rfl
  | held known => exact keys_setQueue_of_known known

theorem keys_tracked (tracked : Tracked s tx s') :
    s'.accountQueues.keys = s.accountQueues.keys ∪ {tx.sender} := by
  cases tracked with
  | unfit | accepted => exact keys_setQueue

theorem keys_inserted (inserted : s.insert tx = some s') :
    s'.accountQueues.keys = s.accountQueues.keys ∪ s.admitted (.pendingTransaction tx) := by
  cases insert_spec inserted with
  | turnedAway away => simp [admitted, away]
  | roomy room tracked =>
      simp only [admitted, if_neg (not_turnedAway_of_room room)]
      exact keys_tracked tracked
  | evicting full first outbids evicted tracked =>
      simp only [admitted, if_neg (not_turnedAway_of_outbids first outbids)]
      rw [keys_tracked tracked, keys_evicted evicted]

theorem keys_applied (applied : s.applyBlock block = some s') :
    s'.accountQueues.keys = s.accountQueues.keys := by
  obtain ⟨gas, confirmed, ran, rfl⟩ := applyBlock_spec applied
  change confirmed.accountQueues.keys = s.accountQueues.keys
  apply block_invariant (fun later => later.accountQueues.keys = s.accountQueues.keys) _ _ rfl ran
  · intro s₁ tx s₂ same removed
    cases removed with
    | untracked => exact same
    | tracked known => exact (keys_setQueue_of_known known).trans same
  · intro s₁ tx s₂ same confirmed
    cases confirmed with
    | unknown => exact same
    | known known => exact (keys_setQueue_of_known known).trans same

theorem Removed.eq_of_untracked (removed : Removed s tx s')
    (untracked : s.findTxByAddrAndNonce tx.sender tx.nonce = none) : s' = s := by
  cases removed with
  | untracked => rfl
  | tracked known held => cases ((findTx_eq known).trans held).symm.trans untracked

end Bulkmail.Mempool.MempoolInner

namespace Bulkmail.Mempool.MempoolTracker

open Library MempoolInner

variable {config : TrackerConfig} {s s' t : MempoolInner} {event : MempoolEvent}

/-- The accounts the events of a run let in, one after another. -/
def admittedIn : MempoolInner → List MempoolEvent → Finset Address
  | _, [] => ∅
  | s, event :: rest =>
      s.admitted event ∪ (step s event).elim ∅ fun next => admittedIn next rest

theorem keys_step (stepped : step s event = some s') :
    s'.accountQueues.keys = s.accountQueues.keys ∪ s.admitted event := by
  cases event with
  | pendingTransaction tx => exact keys_inserted stepped
  | newBlock block =>
      rw [keys_applied stepped]
      exact (Finset.union_empty _).symm

/-- The accounts after a run are those before it and every sender the capacity check has let
    through since; neither an eviction nor a block takes one away. -/
theorem accounts_never_forgotten {events : List MempoolEvent}
    (ran : runs step s events = some t) :
    t.accountQueues.keys = s.accountQueues.keys ∪ admittedIn s events := by
  induction events generalizing s with
  | nil =>
      obtain rfl := Option.some.inj ran
      simp [admittedIn]
  | cons event rest ih =>
      obtain ⟨next, taken, later⟩ := Option.bind_eq_some_iff.mp ran
      rw [ih later, keys_step taken, Finset.union_assoc]
      simp only [admittedIn, taken, Option.elim_some]

/-- Three accounts are known after the first two transactions have been evicted or mined. -/
theorem accounts_never_forgotten_after_block :
    let events := [.pendingTransaction (sampleTx 1 0 20 5), .pendingTransaction (sampleTx 2 0 20 9),
      .newBlock ⟨[sampleTx 2 0 20 9], 0, 0, 0⟩, .pendingTransaction (sampleTx 3 0 20 4)]
    ∃ t, runs step (.new (sampleConfig 1)) events = some t ∧ t.occupiedSlots = 1 ∧
      t.accountQueues.keys.card = 3 ∧
      t.accountQueues.keys = (MempoolInner.new (sampleConfig 1)).accountQueues.keys ∪
        admittedIn (.new (sampleConfig 1)) events := by
  intro events
  have shown : (runs step (.new (sampleConfig 1)) events).map
      (fun t => (t.occupiedSlots, t.accountQueues.keys.card)) = some (1, 3) := by decide +kernel
  obtain ⟨t, ran, now⟩ := Option.map_eq_some_iff.mp shown
  exact ⟨t, ran, congrArg Prod.fst now, congrArg Prod.snd now, accounts_never_forgotten ran⟩

/-! ## Keys -/

/-- Full of keys without a transaction. -/
structure Clogged (s : MempoolInner) : Prop where
  full : s.IsFull
  idle : s.priorityQueue = ∅
  vacant : ∀ a n, s.findTxByAddrAndNonce a n = none

/-- Without transactions the rebuilt queue is empty. -/
theorem rebuild_of_vacant (vacant : ∀ a n, s.findTxByAddrAndNonce a n = none) (baseFee : ℕ) :
    rebuildPriorityQueue baseFee s.accountQueues = ∅ := by
  rw [Finset.eq_empty_iff_forall_notMem]
  intro key member
  obtain ⟨a, q, known, n, tx, -, held, -⟩ := mem_rebuildPriorityQueue.mp member
  have found := vacant a n
  rw [findTx_eq known, held] at found
  cases found

/-- A confirmation takes transactions away and puts none in. -/
theorem vacant_confirmed {tx : PendingTx} (vacant : ∀ a n, s.findTxByAddrAndNonce a n = none)
    (confirmed : Confirmed s tx s') (a : Address) (n : ℕ) :
    s'.findTxByAddrAndNonce a n = none := by
  cases confirmed with
  | unknown => exact vacant a n
  | known known =>
      rw [findTx_setQueue]
      split
      · rw [AccountQueue.txAt_confirmTo, ← findTx_eq known, vacant]
        exact ite_self none
      · exact vacant a n

theorem clogged_step (clogged : Clogged s) (stepped : step s event = some s') : Clogged s' := by
  cases event with
  | pendingTransaction tx =>
      cases insert_spec stepped with
      | turnedAway => exact clogged
      | roomy room => exact absurd clogged.full room
      | evicting full first =>
          rw [firstKey_eq_none_iff.mpr clogged.idle] at first
          cases first
  | newBlock block =>
      obtain ⟨gas, confirmed, ran, rfl⟩ := applyBlock_spec stepped
      obtain ⟨full, vacant⟩ :
          confirmed.IsFull ∧ ∀ a n, confirmed.findTxByAddrAndNonce a n = none := by
        apply block_invariant (fun later : MempoolInner => later.IsFull ∧
          ∀ a n, later.findTxByAddrAndNonce a n = none) _ _ ⟨clogged.full, clogged.vacant⟩ ran
        · rintro s₁ tx s₂ ⟨full, vacant⟩ removed
          cases removed with
          | untracked => exact ⟨full, vacant⟩
          | tracked known held =>
              have found := vacant tx.sender tx.nonce
              rw [findTx_eq known, held] at found
              cases found
        · rintro s₁ tx s₂ ⟨full, vacant⟩ confirmed
          refine ⟨?_, vacant_confirmed vacant confirmed⟩
          cases confirmed with
          | unknown | known => exact full
      exact ⟨full, rebuild_of_vacant vacant block.newBaseFee, vacant⟩

/-- The transaction of the fixed account that has the given fee. -/
def rival (fee : ℕ) : PendingTx := ⟨0, 0, 0, fee, 0, 0⟩

def replacements (count : ℕ) : List MempoolEvent :=
  (List.range count).map (.pendingTransaction <| rival ·)

theorem nonceFits_rival (fee : ℕ) : (rival fee).NonceFits := by
  simp [PendingTx.NonceFits, rival, u64Size]

/-- So many replacements of one transaction have come, and nothing else. -/
structure Piled (config : TrackerConfig) (count : ℕ) (s : MempoolInner) : Prop
    extends Steady config s where
  keys : s.baseFeeEligibility = (Finset.range count).image fun fee => (fee, 0, 0)
  only : ∀ a n tx, s.findTxByAddrAndNonce a n = some tx → a = 0 ∧ n = 0
  floor : ∀ q, s.accountQueues.lookup 0 = some q → q.confirmedNonce = 0

theorem Piled.card {count : ℕ} (piled : Piled config count s) :
    s.baseFeeEligibility.card = count := by
  rw [piled.keys, Finset.card_image_of_injective, Finset.card_range]
  intro fee fee' same
  exact congrArg Prod.fst same

theorem piled_new (config : TrackerConfig) : Piled config 0 (.new config) where
  toSteady := Steady.new config
  keys := rfl
  only a n tx found := by cases found
  floor q known := by cases known

theorem Piled.fits {count : ℕ} (piled : Piled config count s)
    (roomy : 0 < config.perAccountCapacity) : s.Fits (rival count) := by
  have floor : (s.queueFor (rival count)).confirmedNonce = 0 := by
    cases known : s.accountQueues.lookup (0 : Address) with
    | none => simp [queueFor, rival, known]
    | some q =>
        rw [queueFor_of_known known]
        exact piled.floor q known
  refine ⟨fun below => ?_, fun _ => ?_⟩
  · rw [floor] at below
    cases below
  · rw [floor, piled.config]
    exact roomy

theorem Piled.next {count : ℕ} (piled : Piled config count s)
    (roomy : 0 < config.perAccountCapacity) (below : count < config.globalCapacity) :
    ∃ s', step s (.pendingTransaction (rival count)) = some s' ∧ Piled config (count + 1) s' := by
  have fits : (rival count).NonceFits := nonceFits_rival count
  obtain ⟨s', inserted⟩ := exists_insert piled.inv piled.narrow fits
  have room : ¬ s.IsFull := by
    rw [IsFull, piled.card, piled.config]
    omega
  refine ⟨s', inserted, ?_⟩
  have steady := piled.stepped (MempoolEvent.noncesFit_pending fits) inserted
  cases insert_spec inserted with
  | turnedAway away => exact absurd away.1 room
  | evicting full => exact absurd full room
  | roomy _ tracked =>
      cases tracked with
      | unfit unfit => exact absurd (piled.fits roomy) unfit
      | accepted =>
          refine ⟨steady, ?_, ?_, ?_⟩
          · rw [Finset.range_add_one, Finset.image_insert, ← piled.keys]
            rfl
          · intro a n tx found
            change (s.setQueue (rival count).sender _).findTxByAddrAndNonce a n = some tx at found
            rw [findTx_setQueue] at found
            split at found
            · rename_i same
              rw [AccountQueue.txAt_accept, txAt_queueFor] at found
              split at found
              · rename_i lowest
                exact ⟨same, lowest⟩
              · exact ⟨same, (piled.only _ _ _ found).2⟩
            · exact piled.only _ _ _ found
          · intro q known
            change (s.setQueue (rival count).sender _).accountQueues.lookup 0 = some q at known
            rw [lookup_setQueue, if_pos (by rfl)] at known
            cases known
            rw [AccountQueue.confirmedNonce_accept]
            exact Nat.min_zero _

theorem exists_piled (roomy : 0 < config.perAccountCapacity) (count : ℕ)
    (within : count ≤ config.globalCapacity) :
    ∃ s, runs step (.new config) (replacements count) = some s ∧ Piled config count s := by
  induction count with
  | zero => exact ⟨.new config, rfl, piled_new config⟩
  | succ count ih =>
      obtain ⟨s, ran, piled⟩ := ih (by omega)
      obtain ⟨s', stepped, next⟩ := piled.next roomy within
      refine ⟨s', ?_, next⟩
      rw [replacements, List.range_succ, List.map_append, runs_append, ← replacements, ran]
      simpa [runs] using stepped

/-- The account's next transaction. -/
def skipping : PendingTx := ⟨0, 0, 1, 0, 0, 0⟩

/-- The block after the one that was missed. -/
def laterBlock : BlockUpdate := ⟨[skipping], 0, 0, 0⟩

/-- A block with the next nonce drains the transaction and leaves its keys. -/
theorem Piled.clogs (piled : Piled config config.globalCapacity s) :
    ∃ s', step s (.newBlock laterBlock) = some s' ∧ Clogged s' := by
  have fits : (MempoolEvent.newBlock laterBlock).NoncesFit := by decide
  obtain ⟨s', stepped⟩ := exists_step piled.inv piled.narrow fits (by decide)
  refine ⟨s', stepped, ?_⟩
  obtain ⟨gas, confirmed, ran, rfl⟩ := applyBlock_spec stepped
  have untracked : s.findTxByAddrAndNonce 0 1 = none := by
    cases found : s.findTxByAddrAndNonce 0 1 with
    | none => rfl
    | some tx => exact absurd (piled.only _ _ _ found).2 (by decide)
  have kept : laterBlock.includedTxs.foldl removeIncluded (s.updatePrivateFlow laterBlock gas) =
      s.updatePrivateFlow laterBlock gas := by
    exact (removeIncluded_spec _ skipping).eq_of_untracked untracked
  rw [kept] at ran
  obtain ⟨next, taken, done⟩ := Option.bind_eq_some_iff.mp ran
  obtain rfl := Option.some.inj done
  have full : s.IsFull := by rw [IsFull, piled.card, piled.config]
  have vacant : ∀ a n, next.findTxByAddrAndNonce a n = none := by
    intro a n
    by_contra some_
    obtain ⟨tx, found⟩ := Option.ne_none_iff_exists'.mp some_
    cases confirmIncluded_spec taken with
    | unknown unknown =>
        obtain ⟨rfl, rfl⟩ := piled.only a n tx found
        obtain ⟨q, known, -⟩ := findTx_eq_some_iff.mp found
        cases known.symm.trans unknown
    | known known =>
        rw [findTx_setQueue] at found
        split at found
        · rw [AccountQueue.txAt_confirmTo, ← findTx_eq known] at found
          obtain ⟨above, held⟩ := Option.ite_none_left_eq_some.mp found
          obtain ⟨-, rfl⟩ := piled.only _ n tx held
          exact above (lt_max_of_lt_right (by decide))
        · rename_i other
          exact other (piled.only a n tx found).1
  refine ⟨?_, rebuild_of_vacant vacant _, vacant⟩
  cases confirmIncluded_spec taken with
  | unknown | known => exact full

/-- Replacements of one transaction at rising fees, as many as the tracker may have
    transactions, then a block behind one that was missed. -/
def shutting (config : TrackerConfig) : List MempoolEvent :=
  replacements config.globalCapacity ++ [.newBlock laterBlock]

theorem fits_shutting (config : TrackerConfig) :
    ∀ event ∈ shutting config, event.NoncesFit ∧ event.GasFits := by
  intro event member
  obtain replaced | last := List.mem_append.mp member
  · obtain ⟨fee, -, rfl⟩ := List.mem_map.mp replaced
    exact ⟨MempoolEvent.noncesFit_pending (nonceFits_rival fee), trivial⟩
  · rw [List.mem_singleton.mp last]
    decide

/-- The run of `never_panics` is the run of the plain operations. -/
theorem Steady.runs_stepChecked_eq {events : List MempoolEvent} (steady : Steady config s)
    (slots : config.SlotsFit) (fits : ∀ event ∈ events, event.NoncesFit) :
    runs stepChecked s events = runs step s events := by
  induction events generalizing s with
  | nil => rfl
  | cons event rest ih =>
      obtain ⟨first, others⟩ := List.forall_mem_cons.mp fits
      rw [runs, runs, steady.stepChecked_eq slots first]
      cases taken : step s event with
      | none => rfl
      | some next => exact ih (steady.stepped first taken) others

/-- An account with room for a transaction is all it takes to fill the index with keys that
    nothing removes: from then on no transaction is tracked any more, whatever comes. -/
theorem tracker_can_be_shut (config : TrackerConfig) (roomy : 0 < config.perAccountCapacity)
    (slots : config.SlotsFit) :
    (∀ event ∈ shutting config, event.NoncesFit ∧ event.GasFits) ∧
    ∃ s, runs stepChecked (.new config) (shutting config) = some s ∧ Clogged s ∧
      ∀ later t, runs step s later = some t → Clogged t := by
  obtain ⟨s, ran, piled⟩ := exists_piled roomy config.globalCapacity le_rfl
  obtain ⟨s', stepped, clogged⟩ := piled.clogs
  have shuts : runs step (.new config) (shutting config) = some s' := by
    rw [shutting, runs_append, ran]
    simpa [runs] using stepped
  have nonces : ∀ event ∈ shutting config, event.NoncesFit :=
    fun event member => (fits_shutting config event member).1
  refine ⟨fits_shutting config, s', ?_, clogged, fun later t ran => ?_⟩
  · rw [(Steady.new config).runs_stepChecked_eq slots nonces, shuts]
  · exact runs_invariant (fun _ _ _ => clogged_step) clogged ran

/-- Two replacements and a block shut a tracker of two transactions; what comes then is turned
    away. -/
theorem tracker_shut_at_two :
    shutting (sampleConfig 2) = [.pendingTransaction (rival 0), .pendingTransaction (rival 1),
        .newBlock laterBlock] ∧
      ∃ s, runs stepChecked (.new (sampleConfig 2)) (shutting (sampleConfig 2)) = some s ∧
        Clogged s ∧ ∀ later t, runs step s later = some t → Clogged t :=
  ⟨rfl, (tracker_can_be_shut (sampleConfig 2) (by decide) (by decide)).2⟩

end Bulkmail.Mempool.MempoolTracker
