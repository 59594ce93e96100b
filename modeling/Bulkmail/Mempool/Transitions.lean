import Bulkmail.Mempool.Accounts

/-! # Everything an operation on the tracker can do

Each state-changing function is inverted once into an inductive relation with one
constructor for each way it can end.  Proofs about the tracker go by cases on these
relations and never unfold the functions again.
-/

namespace Bulkmail.Mempool.MempoolInner

open Library

variable {s s' : MempoolInner} {tx : PendingTx} {key : PriorityKey} {block : BlockUpdate}
variable {a b : Address} {q : AccountQueue} {n : ℕ}

theorem lookup_setQueue :
    (s.setQueue a q).accountQueues.lookup b =
      if b = a then some q else s.accountQueues.lookup b :=
  lookup_insert_eq s.accountQueues a b q

theorem findTx_eq (known : s.accountQueues.lookup a = some q) :
    s.findTxByAddrAndNonce a n = q.txAt n := by
  simp only [findTxByAddrAndNonce, known, Option.bind_some]

theorem findTx_eq_some_iff :
    s.findTxByAddrAndNonce a n = some tx ↔
      ∃ q, s.accountQueues.lookup a = some q ∧ q.txAt n = some tx :=
  Option.bind_eq_some_iff

theorem findTx_setQueue :
    (s.setQueue a q).findTxByAddrAndNonce b n =
      if b = a then q.txAt n else s.findTxByAddrAndNonce b n := by
  simp only [findTxByAddrAndNonce, lookup_setQueue]
  split <;> rfl

/-- `queueFor` reads the same transactions as the map, also for a new account. -/
theorem txAt_queueFor : (s.queueFor tx).txAt n = s.findTxByAddrAndNonce tx.sender n := by
  cases known : s.accountQueues.lookup tx.sender with
  | none =>
      simp only [queueFor, findTxByAddrAndNonce, known, Option.getD_none, Option.bind_none]
      exact AccountQueue.txAt_new tx.nonce
  | some q => simp only [queueFor, findTxByAddrAndNonce, known, Option.getD_some, Option.bind_some]

theorem queueFor_of_known (known : s.accountQueues.lookup tx.sender = some q) :
    s.queueFor tx = q := by
  simp only [queueFor, known, Option.getD_some]

/-! ## Eviction -/

inductive Evicted (s : MempoolInner) (key : PriorityKey) : MempoolInner → Prop where
  /-- The popped key names no tracked transaction any more. -/
  | stale : s.findTxByAddrAndNonce key.addr key.nonce = none →
      Evicted s key { s with priorityQueue := s.priorityQueue.erase key }
  | held {q : AccountQueue} {victim : PendingTx} :
      s.accountQueues.lookup key.addr = some q → q.txAt key.nonce = some victim →
      Evicted s key
        { s.setQueue key.addr (q.vacate key.nonce) with
          priorityQueue := s.priorityQueue.erase key
          baseFeeEligibility :=
            s.baseFeeEligibility.erase (victim.maxFeePerGas, key.addr, key.nonce) }

theorem evict_spec (evicted : s.evict key = some s') : Evicted s key s' := by
  unfold evict at evicted
  cases known : s.accountQueues.lookup key.addr with
  | none =>
      simp only [known, Option.some.injEq] at evicted
      subst evicted
      apply Evicted.stale
      simp only [findTxByAddrAndNonce, known, Option.bind_none]
  | some q =>
      simp only [known, Option.map_eq_some_iff, checkedSub_eq_some_iff] at evicted
      obtain ⟨offset, ⟨above, rfl⟩, result⟩ := evicted
      split at result
      · rename_i victim found
        subst result
        exact .held known (AccountQueue.txAt_eq_some_iff.mpr ⟨above, found⟩)
      · rename_i empty
        subst result
        apply Evicted.stale
        rw [findTx_eq known]
        cases held : q.txAt key.nonce with
        | none => rfl
        | some victim => exact absurd (AccountQueue.txAt_eq_some_iff.mp held).2 (empty victim)

/-! ## Tracking -/

/-- The per-account capacity has room for the transaction. -/
def Fits (s : MempoolInner) (tx : PendingTx) : Prop :=
  let q := s.queueFor tx
  (tx.nonce < q.confirmedNonce →
    q.confirmedNonce - tx.nonce + q.slots.length ≤ s.config.perAccountCapacity) ∧
  (q.confirmedNonce ≤ tx.nonce → tx.nonce - q.confirmedNonce < s.config.perAccountCapacity)

instance : Decidable (s.Fits tx) := inferInstanceAs (Decidable (_ ∧ _))

inductive Tracked (s : MempoolInner) (tx : PendingTx) : MempoolInner → Prop where
  | unfit : ¬ s.Fits tx → Tracked s tx (s.setQueue tx.sender (s.queueFor tx))
  | accepted : s.Fits tx → Tracked s tx
      { s.setQueue tx.sender ((s.queueFor tx).accept tx) with
        baseFeeEligibility := Insert.insert tx.eligibilityKey s.baseFeeEligibility
        priorityQueue := Insert.insert (tx.priorityKey s.currentBaseFee) s.priorityQueue }

theorem track_spec (tracked : s.track tx = some s') : Tracked s tx s' := by
  obtain ⟨result, rebased, outcome⟩ := Option.map_eq_some_iff.mp tracked
  rcases AccountQueue.rebase_cases rebased with ⟨rfl, below, tooMany⟩ | ⟨rfl, low⟩
  · subst outcome
    apply Tracked.unfit
    intro fits
    exact absurd (fits.1 below) (Nat.not_le.mpr tooMany)
  · simp only at outcome
    split at outcome
    · rename_i far
      have above : (s.queueFor tx).confirmedNonce ≤ tx.nonce := by
        by_contra below
        have needed := low (Nat.not_le.mp below)
        change s.config.perAccountCapacity ≤ tx.nonce - min _ tx.nonce at far
        omega
      rw [AccountQueue.lowerTo_of_le above] at outcome far
      subst outcome
      apply Tracked.unfit
      intro fits
      exact absurd (fits.2 above) (Nat.not_lt.mpr far)
    · rename_i near
      subst outcome
      refine Tracked.accepted ⟨low, fun above => ?_⟩
      rw [AccountQueue.lowerTo_of_le above] at near
      exact Nat.not_le.mp near

/-! ## Insertion -/

/-- The global capacity check turns the transaction away. -/
def TurnedAway (s : MempoolInner) (tx : PendingTx) : Prop :=
  s.IsFull ∧ ∀ worst ∈ firstKey s.priorityQueue, s.effectivePriorityFee tx ≤ worst.fee

instance : Decidable (s.TurnedAway tx) := inferInstanceAs (Decidable (_ ∧ _))

theorem not_turnedAway_of_room (room : ¬ s.IsFull) : ¬ s.TurnedAway tx := fun away => room away.1

theorem not_turnedAway_of_outbids {worst : PriorityKey}
    (first : firstKey s.priorityQueue = some worst)
    (outbids : worst.fee < s.effectivePriorityFee tx) : ¬ s.TurnedAway tx := by
  intro away
  exact absurd (away.2 worst first) (Nat.not_le.mpr outbids)

inductive RoomMade (s : MempoolInner) (tx : PendingTx) : Option MempoolInner → Prop where
  | turnedAway : s.TurnedAway tx → RoomMade s tx none
  | roomy : ¬ s.IsFull → RoomMade s tx (some s)
  | evicting {worst : PriorityKey} {room : MempoolInner} : s.IsFull →
      firstKey s.priorityQueue = some worst → worst.fee < s.effectivePriorityFee tx →
      Evicted s worst room → RoomMade s tx (some room)

theorem makeRoom_spec {result : Option MempoolInner} (made : s.makeRoom tx = some result) :
    RoomMade s tx result := by
  unfold makeRoom at made
  split at made
  · rename_i full
    cases first : firstKey s.priorityQueue with
    | none =>
        simp only [first, Option.some.injEq] at made
        subst made
        exact .turnedAway ⟨full, fun worst found => by simp [first] at found⟩
    | some worst =>
        simp only [first] at made
        split at made
        · rename_i cheap
          obtain rfl := Option.some.inj made
          refine .turnedAway ⟨full, fun worst' found => ?_⟩
          rw [first] at found
          obtain rfl := Option.some.inj found
          exact cheap
        · rename_i outbids
          obtain ⟨room, evicted, rfl⟩ := Option.map_eq_some_iff.mp made
          exact .evicting full first (Nat.not_le.mp outbids) (evict_spec evicted)
  · rename_i room
    obtain rfl := Option.some.inj made
    exact .roomy room

inductive Inserted (s : MempoolInner) (tx : PendingTx) : MempoolInner → Prop where
  | turnedAway : s.TurnedAway tx → Inserted s tx s
  | roomy {s' : MempoolInner} : ¬ s.IsFull → Tracked s tx s' → Inserted s tx s'
  | evicting {worst : PriorityKey} {room s' : MempoolInner} : s.IsFull →
      firstKey s.priorityQueue = some worst → worst.fee < s.effectivePriorityFee tx →
      Evicted s worst room → Tracked room tx s' → Inserted s tx s'

theorem insert_spec (inserted : s.insert tx = some s') : Inserted s tx s' := by
  obtain ⟨result, made, outcome⟩ := Option.bind_eq_some_iff.mp inserted
  cases makeRoom_spec made with
  | turnedAway rejected =>
      obtain rfl := Option.some.inj outcome
      exact .turnedAway rejected
  | roomy room => exact .roomy room (track_spec outcome)
  | evicting full first outbids evicted =>
      exact .evicting full first outbids evicted (track_spec outcome)

/-! ## Blocks -/

inductive Removed (s : MempoolInner) (tx : PendingTx) : MempoolInner → Prop where
  | untracked : s.findTxByAddrAndNonce tx.sender tx.nonce = none → Removed s tx s
  | tracked {q : AccountQueue} {mempoolTx : PendingTx} :
      s.accountQueues.lookup tx.sender = some q → q.txAt tx.nonce = some mempoolTx →
      Removed s tx
        { s.setQueue tx.sender (q.vacate tx.nonce) with
          baseFeeEligibility := s.baseFeeEligibility.erase mempoolTx.eligibilityKey
          priorityQueue := s.priorityQueue.erase (mempoolTx.priorityKey s.currentBaseFee) }

theorem removeIncluded_spec (s : MempoolInner) (tx : PendingTx) :
    Removed s tx (s.removeIncluded tx) := by
  unfold removeIncluded
  cases known : s.accountQueues.lookup tx.sender with
  | none =>
      apply Removed.untracked
      simp only [findTxByAddrAndNonce, known, Option.bind_none]
  | some q =>
      cases held : q.txAt tx.nonce with
      | none =>
          simp only [held]
          apply Removed.untracked
          rw [findTx_eq known, held]
      | some mempoolTx =>
          simp only [held]
          exact .tracked known held

inductive Confirmed (s : MempoolInner) (tx : PendingTx) : MempoolInner → Prop where
  | unknown : s.accountQueues.lookup tx.sender = none → Confirmed s tx s
  | known {q : AccountQueue} : s.accountQueues.lookup tx.sender = some q →
      Confirmed s tx (s.setQueue tx.sender (q.confirmTo (tx.nonce + 1)))

theorem confirmIncluded_spec (confirmed : s.confirmIncluded tx = some s') : Confirmed s tx s' := by
  unfold confirmIncluded at confirmed
  cases known : s.accountQueues.lookup tx.sender with
  | none =>
      simp only [known, Option.some.injEq] at confirmed
      subst confirmed
      exact .unknown known
  | some q =>
      simp only [known, Option.map_eq_some_iff, checkedAdd_eq_some_iff] at confirmed
      obtain ⟨next, ⟨-, rfl⟩, rfl⟩ := confirmed
      exact .known known

/-- A block is bookkeeping, then one removal and one confirmation for each included
    transaction, then the rebuild. -/
theorem applyBlock_spec (applied : s.applyBlock block = some s') :
    ∃ gas confirmed,
      runs confirmIncluded
        (block.includedTxs.foldl removeIncluded (s.updatePrivateFlow block gas))
        block.includedTxs = some confirmed ∧
      s' = confirmed.reprice block.newBaseFee := by
  unfold applyBlock at applied
  obtain ⟨gas, -, rest⟩ := Option.bind_eq_some_iff.mp applied
  obtain ⟨confirmed, ran, result⟩ := Option.bind_eq_some_iff.mp rest
  exact ⟨gas, confirmed, ran, (Option.some.inj result).symm⟩

/-- What every removal and every confirmation preserves, the part of a block in
    front of the rebuild preserves. -/
theorem block_invariant (inv : MempoolInner → Prop) {confirmed : MempoolInner} {gas : ℕ}
    (removal : ∀ s tx s', inv s → Removed s tx s' → inv s')
    (confirmation : ∀ s tx s', inv s → Confirmed s tx s' → inv s')
    (start : inv (s.updatePrivateFlow block gas))
    (ran : runs confirmIncluded
      (block.includedTxs.foldl removeIncluded (s.updatePrivateFlow block gas))
      block.includedTxs = some confirmed) : inv confirmed := by
  have removed : inv (block.includedTxs.foldl removeIncluded (s.updatePrivateFlow block gas)) :=
    List.foldlRecOn _ _ start fun s held tx _ => removal s tx _ held (removeIncluded_spec s tx)
  have drained : ∀ s tx s', inv s → s.confirmIncluded tx = some s' → inv s' :=
    fun s tx s' held taken => confirmation s tx s' held (confirmIncluded_spec taken)
  exact runs_invariant drained removed ran

end Bulkmail.Mempool.MempoolInner

namespace Bulkmail.Mempool.MempoolTracker

open Library

/-- What holds of a fresh tracker and survives both operations holds in every
    reachable state. -/
theorem Reachable.invariant {config : TrackerConfig} (inv : MempoolInner → Prop)
    (fresh : inv (.new config))
    (insertion : ∀ s tx s', inv s → s.insert tx = some s' → inv s')
    (application : ∀ s block s', inv s → s.applyBlock block = some s' → inv s')
    {s : MempoolInner} (reached : Reachable config s) : inv s := by
  obtain ⟨initialTxs, start, events, opened, ran⟩ := reached
  have initial : inv start := runs_invariant insertion fresh opened
  refine runs_invariant (fun s event s' held taken => ?_) initial ran
  cases event with
  | pendingTransaction tx => exact insertion s tx s' held taken
  | newBlock block => exact application s block s' held taken

end Bulkmail.Mempool.MempoolTracker
