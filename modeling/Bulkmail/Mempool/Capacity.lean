import Bulkmail.Mempool.Invariant
import Bulkmail.Mempool.View

/-! # The global capacity

Two results about the capacity check.  The queue is read from its first key, which
carries the highest fee, so the eviction takes the best entry and not the worst; it
is exactly right only when that makes no difference.  And the check counts the
eligibility index while the eviction pops the priority queue, so the number of
tracked transactions stays bounded as long as every popped key frees a slot.
-/

namespace Bulkmail.Mempool

open Library

namespace MempoolInner

variable {s s' : MempoolInner} {tx : PendingTx} {key : PriorityKey}

/-! ## Which entry is evicted -/

/-- What an eviction policy owes: a popped entry has the least fee in the queue and is
    outbid, and only a transaction that outbids no entry is turned away. -/
def EvictsWorst (s : MempoolInner) (tx : PendingTx) : Prop :=
  (∀ room key, s.makeRoom tx = some (some room) → key ∈ s.priorityQueue →
    key ∉ room.priorityQueue →
    (∀ other ∈ s.priorityQueue, key.fee ≤ other.fee) ∧ key.fee < s.effectivePriorityFee tx) ∧
  (s.makeRoom tx = some none → ∀ key ∈ s.priorityQueue, s.effectivePriorityFee tx ≤ key.fee)

/-- The first key of the queue carries its highest fee. -/
theorem fee_le_firstKey {first : PriorityKey} (found : firstKey s.priorityQueue = some first)
    (member : key ∈ s.priorityQueue) : key.fee ≤ first.fee :=
  PriorityKey.fee_le (firstKey_le found member)

/-- A key that names an account at or above its floor is evicted without a panic. -/
theorem evict_isSome (inv : RepInv s) (member : key ∈ s.priorityQueue) :
    ∃ room, s.evict key = some room := by
  obtain ⟨q, known, above⟩ := inv.named key member
  unfold evict
  simp only [known, checkedSub_of_le above, Option.map_some]
  exact ⟨_, rfl⟩

/-- Outbidding the first key pops it. -/
theorem makeRoom_of_outbids {first : PriorityKey} (inv : RepInv s) (full : s.IsFull)
    (found : firstKey s.priorityQueue = some first)
    (outbids : first.fee < s.effectivePriorityFee tx) :
    ∃ room, s.makeRoom tx = some (some room) ∧ first ∉ room.priorityQueue := by
  obtain ⟨room, evicted⟩ := evict_isSome inv (firstKey_mem found)
  refine ⟨room, ?_, ?_⟩
  · simp only [makeRoom, if_pos full, found, if_neg (Nat.not_le.mpr outbids), evicted,
      Option.map_some]
  · rw [priorityQueue_evicted (evict_spec evicted)]
    exact Finset.notMem_erase first _

/-- The popped key is the highest one, so it can be the least only among equals. -/
theorem equal_or_cheap_of_evictsWorst {first : PriorityKey} (inv : RepInv s) (full : s.IsFull)
    (found : firstKey s.priorityQueue = some first) (worst : s.EvictsWorst tx) :
    (∀ key ∈ s.priorityQueue, ∀ other ∈ s.priorityQueue, key.fee = other.fee) ∨
    (∀ key ∈ s.priorityQueue, s.effectivePriorityFee tx ≤ key.fee) := by
  rcases Nat.lt_or_ge first.fee (s.effectivePriorityFee tx) with outbids | cheap
  · obtain ⟨room, made, gone⟩ := makeRoom_of_outbids inv full found outbids
    have least := (worst.1 room first made (firstKey_mem found) gone).1
    refine .inl fun key member other member' => ?_
    have := least key member
    have := least other member'
    have := fee_le_firstKey found member
    have := fee_le_firstKey found member'
    omega
  · refine .inr (worst.2 ?_)
    simp only [makeRoom, if_pos full, found, if_pos cheap]

theorem evictsWorst_of_equal_or_cheap {first : PriorityKey} (full : s.IsFull)
    (found : firstKey s.priorityQueue = some first)
    (harmless : (∀ key ∈ s.priorityQueue, ∀ other ∈ s.priorityQueue, key.fee = other.fee) ∨
      ∀ key ∈ s.priorityQueue, s.effectivePriorityFee tx ≤ key.fee) : s.EvictsWorst tx := by
  have listed := firstKey_mem found
  constructor
  · intro room key made member gone
    cases makeRoom_spec made with
    | roomy room => exact absurd full room
    | evicting _ same outbids evicted =>
        obtain rfl := Option.some.inj (found.symm.trans same)
        cases harmless with
        | inl equal =>
            refine ⟨fun other member' => (equal key member other member').le, ?_⟩
            rw [equal key member first listed]
            exact outbids
        | inr cheap => exact absurd (cheap first listed) (Nat.not_le.mpr outbids)
  · intro made key member
    cases makeRoom_spec made with
    | turnedAway rejected =>
        cases harmless with
        | inl equal =>
            rw [equal key member first listed]
            exact rejected.2 first found
        | inr cheap => exact cheap key member

theorem evictsWorst_iff {config : TrackerConfig} (reached : MempoolTracker.Reachable config s)
    (full : s.config.globalCapacity ≤ s.baseFeeEligibility.card)
    (queued : s.priorityQueue.Nonempty) :
    s.EvictsWorst tx ↔
      (∀ key ∈ s.priorityQueue, ∀ other ∈ s.priorityQueue, key.fee = other.fee) ∨
      (∀ key ∈ s.priorityQueue, s.effectivePriorityFee tx ≤ key.fee) := by
  cases found : firstKey s.priorityQueue with
  | none => exact absurd (firstKey_eq_none_iff.mp found) queued.ne_empty
  | some first =>
      constructor
      · exact equal_or_cheap_of_evictsWorst reached.repInv.1 full found
      · exact evictsWorst_of_equal_or_cheap full found

theorem evictsWorst_single_fee :
    let s := sampleRun 2 [.pendingTransaction (sampleTx 1 0 20 5),
      .pendingTransaction (sampleTx 2 0 20 5)]
    s.EvictsWorst (sampleTx 3 0 20 9) ↔
      (∀ key ∈ s.priorityQueue, ∀ other ∈ s.priorityQueue, key.fee = other.fee) ∨
      (∀ key ∈ s.priorityQueue, s.effectivePriorityFee (sampleTx 3 0 20 9) ≤ key.fee) :=
  evictsWorst_iff (reachable_sampleRun 2 _) (by decide) (by decide)

/-- With fees 5 and 1 queued, a newcomer paying 9 throws out the 5. -/
theorem evictsWorst_fails_on_two_fees :
    let s := sampleRun 2 [.pendingTransaction (sampleTx 1 0 20 5),
      .pendingTransaction (sampleTx 2 0 20 1)]
    (MempoolTracker.Reachable (sampleConfig 2) s ∧ s.IsFull ∧ s.priorityQueue.Nonempty) ∧
    (∃ s', s.insert (sampleTx 3 0 20 9) = some s' ∧ s.findTxByAddrAndNonce 1 0 ≠ none ∧
      s'.findTxByAddrAndNonce 1 0 = none ∧ ⟨1, 2, 0⟩ ∈ s'.priorityQueue) ∧
    ¬ s.EvictsWorst (sampleTx 3 0 20 9) := by
  intro s
  refine ⟨⟨reachable_sampleRun 2 _, by decide, by decide⟩, ⟨_, rfl, by decide⟩, fun worst => ?_⟩
  have popped := (worst.1 _ ⟨5, 1, 0⟩ rfl (by decide) (by decide)).1 ⟨1, 2, 0⟩ (by decide)
  exact absurd popped (by decide)

/-! ## How many transactions are tracked -/

/-- The eligibility keys of everything in the slots. -/
def trackedKeys (s : MempoolInner) : Finset EligibilityKey :=
  s.accountQueues.keys.biUnion fun a => (s.accountQueues.lookup a).elim ∅ fun q =>
    (q.slots.reduceOption.map PendingTx.eligibilityKey).toFinset

theorem mem_slots_iff {q : AccountQueue} :
    tx ∈ q.slots.reduceOption ↔ ∃ n, q.txAt n = some tx := by
  rw [List.reduceOption_mem_iff, List.mem_iff_getElem?]
  constructor
  · rintro ⟨i, found⟩
    refine ⟨q.confirmedNonce + i, ?_⟩
    rw [AccountQueue.txAt_confirmedNonce_add, found, Option.join_some]
  · rintro ⟨n, held⟩
    exact ⟨n - q.confirmedNonce, (AccountQueue.txAt_eq_some_iff.mp held).2⟩

theorem mem_trackedKeys {k : EligibilityKey} :
    k ∈ s.trackedKeys ↔
      ∃ a n tx, s.findTxByAddrAndNonce a n = some tx ∧ tx.eligibilityKey = k := by
  simp only [trackedKeys, mem_biUnion_values, List.mem_toFinset, List.mem_map, mem_slots_iff,
    findTx_eq_some_iff]
  constructor
  · rintro ⟨a, q, known, tx, ⟨n, held⟩, rfl⟩
    exact ⟨a, n, tx, ⟨q, known, held⟩, rfl⟩
  · rintro ⟨a, n, tx, ⟨q, known, held⟩, rfl⟩
    exact ⟨a, q, known, tx, ⟨n, held⟩, rfl⟩

/-- Under the invariant the keys are as many as the occupied slots. -/
theorem occupiedSlots_eq_card (inv : RepInv s) : s.occupiedSlots = s.trackedKeys.card := by
  unfold occupiedSlots trackedKeys
  apply total_eq_card_biUnion fun (_ : Address) (q : AccountQueue) =>
    (q.slots.reduceOption.map PendingTx.eligibilityKey).toFinset
  · intro a q known
    have placed : ∀ (i : ℕ) (tx : PendingTx), q.slots[i]? = some (some tx) →
        tx.nonce = q.confirmedNonce + i := by
      intro i tx found
      apply (inv.consistent.placed known _).2
      rw [AccountQueue.txAt_confirmedNonce_add, found, Option.join_some]
    have positions : ((q.slots.reduceOption.map PendingTx.eligibilityKey).map (·.2.2)).Nodup := by
      rw [List.map_map]
      exact nodup_positions placed
    rw [List.toFinset_card_of_nodup (List.Nodup.of_map _ positions), List.length_map,
      length_reduceOption_eq_occupied]
  · intro a q b q' known known' differ
    rw [Finset.disjoint_left]
    intro k left right
    simp only [List.mem_toFinset, List.mem_map] at left right
    obtain ⟨tx, inLeft, rfl⟩ := left
    obtain ⟨tx', inRight, same⟩ := right
    obtain ⟨n, held⟩ := mem_slots_iff.mp inLeft
    obtain ⟨n', held'⟩ := mem_slots_iff.mp inRight
    have sender := (inv.consistent.placed known held).1
    have sender' := (inv.consistent.placed known' held').1
    have senders : tx'.sender = tx.sender := congrArg (·.2.1) same
    exact differ (by rw [← sender, ← sender', senders])

theorem occupiedSlots_le_card (inv : RepInv s) : s.occupiedSlots ≤ s.baseFeeEligibility.card := by
  rw [occupiedSlots_eq_card inv]
  apply Finset.card_le_card
  intro k member
  obtain ⟨a, n, tx, found, rfl⟩ := mem_trackedKeys.mp member
  obtain ⟨q, known, held⟩ := findTx_eq_some_iff.mp found
  exact inv.consistent.eligible known held

theorem occupiedSlots_setQueue (s : MempoolInner) (a : Address) (q : AccountQueue) :
    (s.setQueue a q).occupiedSlots + (s.accountQueues.lookup a).elim 0 (fun q => occupied q.slots) =
      s.occupiedSlots + occupied q.slots :=
  total_insert s.accountQueues a q

theorem occupied_queueFor :
    (s.accountQueues.lookup tx.sender).elim 0 (fun q => occupied q.slots) =
      occupied (s.queueFor tx).slots := by
  cases known : s.accountQueues.lookup tx.sender with
  | none =>
      rw [queueFor, known]
      rfl
  | some q => simp only [queueFor, known, Option.elim_some, Option.getD_some]

theorem occupiedSlots_tracked (tracked : Tracked s tx s') :
    s'.occupiedSlots = s.occupiedSlots +
      if s.Fits tx ∧ s.findTxByAddrAndNonce tx.sender tx.nonce = none then 1 else 0 := by
  cases tracked with
  | unfit unfit =>
      have count := occupiedSlots_setQueue s tx.sender (s.queueFor tx)
      rw [occupied_queueFor] at count
      rw [if_neg fun both => unfit both.1]
      omega
  | accepted fits =>
      have count := occupiedSlots_setQueue s tx.sender ((s.queueFor tx).accept tx)
      have added := AccountQueue.occupied_accept (s.queueFor tx) tx
      rw [occupied_queueFor] at count
      rw [txAt_queueFor] at added
      change (s.setQueue tx.sender ((s.queueFor tx).accept tx)).occupiedSlots = _
      cases held : s.findTxByAddrAndNonce tx.sender tx.nonce with
      | none =>
          simp only [held, Option.isSome_none, Bool.false_eq_true, if_false] at added
          simp only [fits, and_self, if_true]
          omega
      | some old =>
          simp only [held, Option.isSome_some, if_true] at added
          simp only [reduceCtorEq, and_false, if_false]
          omega

theorem occupiedSlots_evicted (evicted : Evicted s key s') :
    s'.occupiedSlots + (if s.findTxByAddrAndNonce key.addr key.nonce = none then 0 else 1) =
      s.occupiedSlots := by
  cases evicted with
  | stale empty =>
      rw [if_pos empty]
      rfl
  | @held q victim known found =>
      have count := occupiedSlots_setQueue s key.addr (q.vacate key.nonce)
      rw [known, Option.elim_some] at count
      have freed := AccountQueue.occupied_vacate found
      rw [findTx_eq known, found, if_neg (Option.some_ne_none victim)]
      change (s.setQueue key.addr (q.vacate key.nonce)).occupiedSlots + 1 = _
      omega

theorem occupiedSlots_applied_le {block : BlockUpdate} (applied : s.applyBlock block = some s') :
    s'.occupiedSlots ≤ s.occupiedSlots := by
  obtain ⟨gas, confirmed, ran, rfl⟩ := applyBlock_spec applied
  change confirmed.occupiedSlots ≤ s.occupiedSlots
  refine block_invariant (fun later => later.occupiedSlots ≤ s.occupiedSlots)
    (fun s₁ tx s₂ le removed => ?_) (fun s₁ tx s₂ le confirmed => ?_) le_rfl ran
  · cases removed with
    | untracked => exact le
    | @tracked q mempoolTx known found =>
        have count := occupiedSlots_setQueue s₁ tx.sender (q.vacate tx.nonce)
        rw [known, Option.elim_some] at count
        have freed := AccountQueue.occupied_vacate found
        change (s₁.setQueue tx.sender (q.vacate tx.nonce)).occupiedSlots ≤ _
        omega
  · cases confirmed with
    | unknown => exact le
    | @known q known =>
        have count := occupiedSlots_setQueue s₁ tx.sender (q.confirmTo (tx.nonce + 1))
        rw [known, Option.elim_some] at count
        have drained := AccountQueue.occupied_confirmTo_le q (tx.nonce + 1)
        omega

/-- If the insertion evicts, the key it pops still names a tracked transaction, or the
    newcomer takes no new slot, or a slot is free all the same. -/
def FreesOnEviction (s : MempoolInner) (tx : PendingTx) : Prop :=
  s.IsFull → ∀ worst ∈ firstKey s.priorityQueue, worst.fee < s.effectivePriorityFee tx →
    s.findTxByAddrAndNonce worst.addr worst.nonce ≠ none ∨ ¬ s.Fits tx ∨
    s.findTxByAddrAndNonce tx.sender tx.nonce ≠ none ∨
    s.occupiedSlots < s.config.globalCapacity

instance : Decidable (s.FreesOnEviction tx) := inferInstanceAs (Decidable (_ → _))

/-- An eviction that pops a stale key empties no slot for the newcomer. -/
theorem occupiedSlots_evicting_iff {worst : PriorityKey} {room : MempoolInner}
    (within : s.occupiedSlots ≤ s.config.globalCapacity) (evicted : Evicted s worst room)
    (tracked : Tracked room tx s') :
    s'.occupiedSlots ≤ s.config.globalCapacity ↔
      s.findTxByAddrAndNonce worst.addr worst.nonce ≠ none ∨ ¬ s.Fits tx ∨
      s.findTxByAddrAndNonce tx.sender tx.nonce ≠ none ∨
      s.occupiedSlots < s.config.globalCapacity := by
  have freed := occupiedSlots_evicted evicted
  have added := occupiedSlots_tracked tracked
  simp only [fits_evicted evicted] at added
  by_cases stale : s.findTxByAddrAndNonce worst.addr worst.nonce = none
  · have same : room.findTxByAddrAndNonce tx.sender tx.nonce =
        s.findTxByAddrAndNonce tx.sender tx.nonce := by
      rw [findTx_evicted evicted]
      split
      · rename_i here
        rw [here.1, here.2, stale]
      · rfl
    rw [if_pos stale] at freed
    rw [same] at added
    simp only [stale, ne_eq, not_true_eq_false, false_or]
    split at added
    · rename_i both
      simp only [both, not_true_eq_false, false_or]
      omega
    · rename_i either
      have : ¬ s.Fits tx ∨ ¬ s.findTxByAddrAndNonce tx.sender tx.nonce = none := by
        rwa [← not_and_or]
      constructor
      · intro _
        rcases this with unfit | replaced
        · exact .inl unfit
        · exact .inr (.inl replaced)
      · intro _
        omega
  · rw [if_neg stale] at freed
    refine ⟨fun _ => .inl stale, fun _ => ?_⟩
    split at added <;> omega

theorem occupiedSlots_inserted_iff (inv : RepInv s)
    (within : s.occupiedSlots ≤ s.config.globalCapacity) (inserted : s.insert tx = some s') :
    s'.occupiedSlots ≤ s.config.globalCapacity ↔ s.FreesOnEviction tx := by
  cases insert_spec inserted with
  | turnedAway away =>
      refine ⟨fun _ _ worst first outbids => ?_, fun _ => within⟩
      exact absurd (away.2 worst first) (Nat.not_le.mpr outbids)
  | roomy room tracked =>
      refine ⟨fun _ full => absurd full room, fun _ => ?_⟩
      have counted := occupiedSlots_le_card inv
      have added := occupiedSlots_tracked tracked
      have below := Nat.not_le.mp room
      split at added <;> omega
  | @evicting worst emptied s' full first outbids evicted tracked =>
      rw [occupiedSlots_evicting_iff within evicted tracked]
      constructor
      · intro frees _ worst' first' _
        rw [first] at first'
        obtain rfl := Option.some.inj first'
        exact frees
      · intro frees
        exact frees full worst first outbids

end MempoolInner

namespace MempoolTracker

open MempoolInner

/-- The condition on the tracker's events: blocks always meet it. -/
def FreesSlot (s : MempoolInner) : MempoolEvent → Prop
  | .pendingTransaction tx => s.FreesOnEviction tx
  | .newBlock _ => True

instance (s : MempoolInner) : ∀ event, Decidable (FreesSlot s event)
  | .pendingTransaction tx => inferInstanceAs (Decidable (s.FreesOnEviction tx))
  | .newBlock _ => inferInstanceAs (Decidable True)

theorem capacity_respected_iff {config : TrackerConfig} {initialTxs : List PendingTx}
    {events : List MempoolEvent} {start s : MempoolInner}
    (opened : fromChannel config initialTxs = some start) (ran : runs step start events = some s) :
    (Throughout MempoolInner.insert (fun s => s.occupiedSlots ≤ config.globalCapacity)
        (.new config) initialTxs ∧
      Throughout step (fun s => s.occupiedSlots ≤ config.globalCapacity) start events) ↔
    EachStep MempoolInner.insert FreesOnEviction (.new config) initialTxs ∧
      EachStep step FreesSlot start events := by
  have initially : (MempoolInner.new config).occupiedSlots ≤ config.globalCapacity := Nat.zero_le _
  apply throughout_iff (fun s => s.occupiedSlots ≤ config.globalCapacity) FreesSlot initially ?_ ?_
    opened ran
  · intro s tx s' inv same within inserted
    rw [← same] at within ⊢
    exact occupiedSlots_inserted_iff inv within inserted
  · intro s block s' inv same within applied
    exact ⟨fun _ => trivial, fun _ => (occupiedSlots_applied_le applied).trans within⟩

theorem capacity_respected_on_eviction :
    let start := sampleRun 1 [.pendingTransaction (sampleTx 1 0 20 5)]
    let events := [.pendingTransaction (sampleTx 2 0 20 9)]
    fromChannel (sampleConfig 1) [sampleTx 1 0 20 5] = some start ∧
    ∃ s, runs step start events = some s ∧
      s.findTxByAddrAndNonce 2 0 = some (sampleTx 2 0 20 9) ∧
      Throughout step (fun s => s.occupiedSlots ≤ 1) start events := by
  intro start events
  have initially : EachStep MempoolInner.insert FreesOnEviction (.new (sampleConfig 1))
      [sampleTx 1 0 20 5] := by decide
  have later : EachStep step FreesSlot start events := by decide
  have opened : fromChannel (sampleConfig 1) [sampleTx 1 0 20 5] = some start := rfl
  exact ⟨opened, _, rfl, by decide,
    ((capacity_respected_iff opened rfl).mpr ⟨initially, later⟩).2⟩

/-- A fee bump leaves two keys for one slot.  The first is used up by an eviction whose
    newcomer does not fit, the second by one that frees nothing. -/
theorem capacity_exceeded_by_stale_key :
    ∃ s, runs step (.new (sampleConfig 2)) [
        .pendingTransaction (sampleTx 1 0 100 8), .pendingTransaction (sampleTx 1 0 100 5),
        .pendingTransaction (sampleTx 2 0 100 1), .pendingTransaction (sampleTx 2 1000 100 10),
        .pendingTransaction (sampleTx 3 0 100 2), .pendingTransaction (sampleTx 4 0 100 6)] =
        some s ∧
      s.occupiedSlots = 3 ∧ ¬ s.occupiedSlots ≤ (sampleConfig 2).globalCapacity :=
  ⟨_, rfl, by decide, by decide⟩

end MempoolTracker

end Bulkmail.Mempool
