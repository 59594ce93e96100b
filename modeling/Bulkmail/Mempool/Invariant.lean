import Bulkmail.Mempool.Rebuild

/-! # The representation invariant

What ties the three indexes of the tracker together.  `Consistent` relates the
slots to their positions, to the per-account capacity and to the eligibility index;
`Named` relates the priority queue to the accounts.  They are separate because a
block breaks the second one halfway and only the rebuild restores it.
-/

namespace Bulkmail.Mempool

open Library

structure Consistent (capacity : ℕ) (queues : AccountQueues)
    (eligibility : Finset EligibilityKey) : Prop where
  placed : ∀ {a q n tx}, queues.lookup a = some q → q.txAt n = some tx →
    tx.sender = a ∧ tx.nonce = n
  bounded : ∀ {a q}, queues.lookup a = some q → q.slots.length ≤ capacity
  eligible : ∀ {a q n tx}, queues.lookup a = some q → q.txAt n = some tx →
    tx.eligibilityKey ∈ eligibility

/-- Every queued key names an account whose floor it is not below. -/
def Named (queues : AccountQueues) (queue : Finset PriorityKey) : Prop :=
  ∀ key ∈ queue, ∃ q, queues.lookup key.addr = some q ∧ q.confirmedNonce ≤ key.nonce

namespace Consistent

variable {capacity : ℕ} {queues : AccountQueues} {eligibility eligibility' : Finset EligibilityKey}
variable {a : Address} {q : AccountQueue} {tx victim : PendingTx} {nonce : ℕ}

theorem empty : Consistent capacity ∅ ∅ where
  placed known := by cases known
  bounded known := by cases known
  eligible known := by cases known

/-- Replacing one account's queue is fine as long as the new queue is and no other
    sender loses its keys. -/
theorem setQueue (consistent : Consistent capacity queues eligibility)
    (placed : ∀ n tx, q.txAt n = some tx → tx.sender = a ∧ tx.nonce = n)
    (bounded : q.slots.length ≤ capacity)
    (own : ∀ n tx, q.txAt n = some tx → tx.eligibilityKey ∈ eligibility')
    (others : ∀ tx : PendingTx, tx.sender ≠ a → tx.eligibilityKey ∈ eligibility →
      tx.eligibilityKey ∈ eligibility') :
    Consistent capacity (queues.insert a q) eligibility' := by
  constructor
  · intro b q' n tx known held
    rw [lookup_insert_eq] at known
    split at known
    · rename_i here
      obtain rfl := Option.some.inj known
      exact here ▸ placed n tx held
    · exact consistent.placed known held
  · intro b q' known
    rw [lookup_insert_eq] at known
    split at known
    · obtain rfl := Option.some.inj known
      exact bounded
    · exact consistent.bounded known
  · intro b q' n tx known held
    rw [lookup_insert_eq] at known
    split at known
    · obtain rfl := Option.some.inj known
      exact own n tx held
    · rename_i other
      have sender := (consistent.placed known held).1
      exact others tx (sender ▸ other) (consistent.eligible known held)

/-- Clearing a slot goes with dropping its own key, which no other slot needs. -/
theorem vacate (consistent : Consistent capacity queues eligibility)
    (known : queues.lookup a = some q) (held : q.txAt nonce = some victim) :
    Consistent capacity (queues.insert a (q.vacate nonce))
      (eligibility.erase (victim.maxFeePerGas, a, nonce)) := by
  have above := (AccountQueue.txAt_eq_some_iff.mp held).1
  have kept : ∀ n tx, (q.vacate nonce).txAt n = some tx → n ≠ nonce ∧ q.txAt n = some tx := by
    intro n tx found
    rw [AccountQueue.txAt_vacate above] at found
    split at found
    · cases found
    · rename_i other
      exact ⟨other, found⟩
  apply consistent.setQueue
  · intro n tx found
    exact consistent.placed known (kept n tx found).2
  · rw [AccountQueue.length_vacate]
    exact consistent.bounded known
  · intro n tx found
    obtain ⟨other, found⟩ := kept n tx found
    refine Finset.mem_erase.mpr ⟨?_, consistent.eligible known found⟩
    intro same
    have position := (consistent.placed known found).2
    simp only [PendingTx.eligibilityKey, Prod.mk.injEq] at same
    exact other (position.symm.trans same.2.2)
  · intro tx other member
    refine Finset.mem_erase.mpr ⟨?_, member⟩
    intro same
    simp only [PendingTx.eligibilityKey, Prod.mk.injEq] at same
    exact other same.2.1

theorem confirmTo (consistent : Consistent capacity queues eligibility)
    (known : queues.lookup a = some q) :
    Consistent capacity (queues.insert a (q.confirmTo nonce)) eligibility := by
  have kept : ∀ n tx, (q.confirmTo nonce).txAt n = some tx → q.txAt n = some tx := by
    intro n tx found
    rw [AccountQueue.txAt_confirmTo] at found
    split at found
    · cases found
    · exact found
  apply consistent.setQueue
  · exact fun n tx found => consistent.placed known (kept n tx found)
  · exact AccountQueue.length_confirmTo_le.trans (consistent.bounded known)
  · exact fun n tx found => consistent.eligible known (kept n tx found)
  · exact fun _ _ member => member

end Consistent

/-- Under the invariant the rebuilt queue is read off account by account. -/
theorem Consistent.mem_rebuild_iff {capacity : ℕ} {queues : AccountQueues}
    {eligibility : Finset EligibilityKey} (consistent : Consistent capacity queues eligibility)
    {baseFee fee n : ℕ} {a : Address} :
    ⟨fee, a, n⟩ ∈ rebuildPriorityQueue baseFee queues ↔
      ∃ q, queues.lookup a = some q ∧ q.MarketableAt baseFee n ∧
        ∃ tx, q.txAt n = some tx ∧ tx.effectivePriorityFee baseFee = fee := by
  rw [mem_rebuildPriorityQueue]
  constructor
  · rintro ⟨b, q, known, m, tx, marketable, held, same⟩
    obtain ⟨rfl, rfl⟩ := consistent.placed known held
    simp only [PendingTx.priorityKey, PriorityKey.mk.injEq] at same
    obtain ⟨rfl, rfl, rfl⟩ := same
    exact ⟨q, known, marketable, tx, held, rfl⟩
  · rintro ⟨q, known, marketable, tx, held, rfl⟩
    obtain ⟨sender, nonce⟩ := consistent.placed known held
    exact ⟨a, q, known, n, tx, marketable, held, by rw [PendingTx.priorityKey, sender, nonce]⟩

namespace Named

variable {queues : AccountQueues} {queue smaller : Finset PriorityKey}

theorem subset (named : Named queues queue) (le : smaller ⊆ queue) : Named queues smaller :=
  fun key member => named key (le member)

/-- A floor may move down under the queue, never up. -/
theorem setQueue {a : Address} {q : AccountQueue} (named : Named queues queue)
    (lower : ∀ old, queues.lookup a = some old → q.confirmedNonce ≤ old.confirmedNonce) :
    Named (queues.insert a q) queue := by
  intro key member
  obtain ⟨old, known, above⟩ := named key member
  rw [lookup_insert_eq]
  split
  · rename_i here
    exact ⟨q, rfl, (lower old (here ▸ known)).trans above⟩
  · exact ⟨old, known, above⟩

theorem rebuild {capacity baseFee : ℕ} {eligibility : Finset EligibilityKey}
    (consistent : Consistent capacity queues eligibility) :
    Named queues (rebuildPriorityQueue baseFee queues) := by
  intro key member
  obtain ⟨q, known, marketable, -⟩ := consistent.mem_rebuild_iff.mp member
  exact ⟨q, known, marketable.1⟩

end Named

structure RepInv (s : MempoolInner) : Prop where
  consistent : Consistent s.config.perAccountCapacity s.accountQueues s.baseFeeEligibility
  named : Named s.accountQueues s.priorityQueue

namespace RepInv

open MempoolInner

variable {s s' : MempoolInner} {tx : PendingTx} {key : PriorityKey}

theorem new (config : TrackerConfig) : RepInv (.new config) where
  consistent := .empty
  named key member := by cases member

theorem placed (inv : RepInv s) {a : Address} {n : ℕ}
    (held : s.findTxByAddrAndNonce a n = some tx) : tx.sender = a ∧ tx.nonce = n := by
  obtain ⟨q, known, found⟩ := findTx_eq_some_iff.mp held
  exact inv.consistent.placed known found

theorem evicted (inv : RepInv s) (evicted : Evicted s key s') : RepInv s' := by
  cases evicted with
  | stale => exact ⟨inv.consistent, inv.named.subset (Finset.erase_subset _ _)⟩
  | held known found =>
      refine ⟨inv.consistent.vacate known found, ?_⟩
      apply (inv.named.subset (Finset.erase_subset _ _)).setQueue
      intro old same
      rw [known] at same
      obtain rfl := Option.some.inj same
      exact le_rfl

/-- The queue an insertion starts from, read off the map or freshly made. -/
theorem queueFor (inv : RepInv s) (tx : PendingTx) :
    (∀ n tx', (s.queueFor tx).txAt n = some tx' →
      tx'.sender = tx.sender ∧ tx'.nonce = n ∧ tx'.eligibilityKey ∈ s.baseFeeEligibility) ∧
    (s.queueFor tx).slots.length ≤ s.config.perAccountCapacity ∧
    ∀ old, s.accountQueues.lookup tx.sender = some old →
      (s.queueFor tx).confirmedNonce = old.confirmedNonce := by
  cases known : s.accountQueues.lookup tx.sender with
  | none =>
      have fresh : s.queueFor tx = ⟨tx.nonce, []⟩ := by
        simp only [MempoolInner.queueFor, known, Option.getD_none]
      rw [fresh]
      refine ⟨fun n tx' held => ?_, Nat.zero_le _, fun old same => by cases same⟩
      rw [AccountQueue.txAt_new] at held
      cases held
  | some q =>
      rw [queueFor_of_known known]
      refine ⟨fun n tx' held => ?_, inv.consistent.bounded known, fun old same => ?_⟩
      · obtain ⟨sender, nonce⟩ := inv.consistent.placed known held
        exact ⟨sender, nonce, inv.consistent.eligible known held⟩
      · obtain rfl := Option.some.inj same
        rfl

theorem tracked (inv : RepInv s) (tracked : Tracked s tx s') : RepInv s' := by
  obtain ⟨own, short, floor⟩ := inv.queueFor tx
  cases tracked with
  | unfit =>
      constructor
      · apply inv.consistent.setQueue
        · exact fun n tx' held => ⟨(own n tx' held).1, (own n tx' held).2.1⟩
        · exact short
        · exact fun n tx' held => (own n tx' held).2.2
        · exact fun _ _ member => member
      · exact inv.named.setQueue fun old known => (floor old known).le
  | accepted fits =>
      have content : ∀ n tx', ((s.queueFor tx).accept tx).txAt n = some tx' →
          tx'.sender = tx.sender ∧ tx'.nonce = n ∧
            tx'.eligibilityKey ∈ insert tx.eligibilityKey s.baseFeeEligibility := by
        intro n tx' held
        rw [AccountQueue.txAt_accept] at held
        split at held
        · rename_i here
          obtain rfl := Option.some.inj held
          exact ⟨rfl, here.symm, Finset.mem_insert_self _ _⟩
        · obtain ⟨sender, nonce, member⟩ := own n tx' held
          exact ⟨sender, nonce, Finset.mem_insert_of_mem member⟩
      constructor
      · apply inv.consistent.setQueue
        · exact fun n tx' held => ⟨(content n tx' held).1, (content n tx' held).2.1⟩
        · exact AccountQueue.length_accept_le short fits.1 fits.2
        · exact fun n tx' held => (content n tx' held).2.2
        · exact fun _ _ member => Finset.mem_insert_of_mem member
      · have lower : ∀ old, s.accountQueues.lookup tx.sender = some old →
            ((s.queueFor tx).accept tx).confirmedNonce ≤ old.confirmedNonce := by
          intro old known
          rw [AccountQueue.confirmedNonce_accept, floor old known]
          exact Nat.min_le_left _ _
        intro key member
        rcases Finset.mem_insert.mp member with rfl | member
        · refine ⟨(s.queueFor tx).accept tx, ?_, Nat.min_le_right _ _⟩
          exact lookup_setQueue.trans (if_pos rfl)
        · exact inv.named.setQueue lower key member

theorem inserted (inv : RepInv s) (inserted : s.insert tx = some s') : RepInv s' := by
  cases insert_spec inserted with
  | turnedAway => exact inv
  | roomy _ tracked => exact inv.tracked tracked
  | evicting _ _ _ evicted tracked => exact (inv.evicted evicted).tracked tracked

theorem consistent_removed
    (consistent : Consistent s.config.perAccountCapacity s.accountQueues s.baseFeeEligibility)
    (removed : Removed s tx s') :
    Consistent s'.config.perAccountCapacity s'.accountQueues s'.baseFeeEligibility := by
  cases removed with
  | untracked => exact consistent
  | @tracked q mempoolTx known found =>
      have key : mempoolTx.eligibilityKey = (mempoolTx.maxFeePerGas, tx.sender, tx.nonce) := by
        obtain ⟨sender, nonce⟩ := consistent.placed known found
        rw [PendingTx.eligibilityKey, sender, nonce]
      rw [key]
      exact consistent.vacate known found

theorem consistent_foldl_removeIncluded (txs : List PendingTx)
    (consistent : Consistent s.config.perAccountCapacity s.accountQueues s.baseFeeEligibility) :
    let removed := txs.foldl removeIncluded s
    Consistent removed.config.perAccountCapacity removed.accountQueues
      removed.baseFeeEligibility := by
  induction txs generalizing s with
  | nil => exact consistent
  | cons tx rest ih => exact ih (consistent_removed consistent (removeIncluded_spec s tx))

theorem applied (inv : RepInv s) {block : BlockUpdate}
    (applied : s.applyBlock block = some s') : RepInv s' := by
  obtain ⟨gas, confirmed, ran, rfl⟩ := applyBlock_spec applied
  have consistent : Consistent confirmed.config.perAccountCapacity confirmed.accountQueues
      confirmed.baseFeeEligibility := by
    refine block_invariant
      (fun s => Consistent s.config.perAccountCapacity s.accountQueues s.baseFeeEligibility)
      (fun s tx s' held removed => ?_) (fun s tx s' held confirmed => ?_) inv.consistent ran
    · exact consistent_removed held removed
    · cases confirmed with
      | unknown => exact held
      | known known => exact held.confirmTo known
  exact ⟨consistent, Named.rebuild consistent⟩

theorem config_inserted (inserted : s.insert tx = some s') : s'.config = s.config := by
  cases insert_spec inserted with
  | turnedAway => rfl
  | roomy _ tracked => cases tracked <;> rfl
  | evicting _ _ _ evicted tracked => cases evicted <;> cases tracked <;> rfl

theorem config_applied {block : BlockUpdate} (applied : s.applyBlock block = some s') :
    s'.config = s.config := by
  obtain ⟨gas, confirmed, ran, rfl⟩ := applyBlock_spec applied
  change confirmed.config = s.config
  refine block_invariant (fun later => later.config = s.config) (fun s₁ tx s₂ held removed => ?_)
    (fun s₁ tx s₂ held confirmed => ?_) rfl ran
  · cases removed <;> exact held
  · cases confirmed <;> exact held

end RepInv

namespace MempoolTracker

variable {config : TrackerConfig} {s : MempoolInner}

theorem Reachable.repInv (reached : Reachable config s) : RepInv s ∧ s.config = config := by
  refine reached.invariant (fun s => RepInv s ∧ s.config = config) ⟨.new config, rfl⟩ ?_ ?_
  · rintro s tx s' ⟨inv, same⟩ inserted
    exact ⟨inv.inserted inserted, (RepInv.config_inserted inserted).trans same⟩
  · rintro s block s' ⟨inv, same⟩ applied
    exact ⟨inv.applied applied, (RepInv.config_applied applied).trans same⟩

/-- A property that each event keeps exactly under a condition holds throughout the
    tracker's life exactly when every event, initial ones included, meets it. -/
theorem throughout_iff (good : MempoolInner → Prop) (cond : MempoolInner → MempoolEvent → Prop)
    (initially : good (.new config))
    (insertion : ∀ s tx s', RepInv s → s.config = config → good s → s.insert tx = some s' →
      (good s' ↔ cond s (.pendingTransaction tx)))
    (application : ∀ s block s', RepInv s → s.config = config → good s →
      s.applyBlock block = some s' → (good s' ↔ cond s (.newBlock block)))
    {initialTxs : List PendingTx} {events : List MempoolEvent} {start : MempoolInner}
    (opened : fromChannel config initialTxs = some start) (ran : runs step start events = some s) :
    (Throughout MempoolInner.insert good (.new config) initialTxs ∧
      Throughout step good start events) ↔
    EachStep MempoolInner.insert (fun s tx => cond s (.pendingTransaction tx)) (.new config)
      initialTxs ∧ EachStep step cond start events := by
  let inv : MempoolInner → Prop := fun s => RepInv s ∧ s.config = config
  have inserting : ∀ s tx s', inv s → s.insert tx = some s' → inv s' :=
    fun s tx s' held taken =>
      ⟨held.1.inserted taken, (RepInv.config_inserted taken).trans held.2⟩
  have stepping : ∀ s event s', inv s → step s event = some s' → inv s' := by
    intro s event s' held taken
    cases event with
    | pendingTransaction tx => exact inserting s tx s' held taken
    | newBlock block =>
        exact ⟨held.1.applied taken, (RepInv.config_applied taken).trans held.2⟩
  have fresh : inv (.new config) := ⟨.new config, rfl⟩
  have opening := throughout_iff_eachStep inserting
    (fun s tx s' held => insertion s tx s' held.1 held.2) fresh initially opened
  have running : good start →
      (Throughout step good start events ↔ EachStep step cond start events) := by
    intro good
    refine throughout_iff_eachStep stepping (fun s event s' held good taken => ?_)
      (runs_invariant inserting fresh opened) good ran
    cases event with
    | pendingTransaction tx => exact insertion s tx s' held.1 held.2 good taken
    | newBlock block => exact application s block s' held.1 held.2 good taken
  constructor
  · intro held
    exact ⟨opening.mp held.1, (running (held.1.last opened)).mp held.2⟩
  · intro guarded
    have held := opening.mpr guarded.1
    exact ⟨held, (running (held.last opened)).mpr guarded.2⟩

/-- Whatever the id search finds sits in some account's slots. -/
theorem findTxById_spec {values : List AccountQueue} {id : TxId} {tx : PendingTx}
    (found : MempoolInner.findTxById values id = some tx) :
    ∃ q ∈ values, ∃ i : ℕ, q.slots[i]? = some (some tx) := by
  obtain ⟨q, member, inQueue⟩ := List.exists_of_findSome?_eq_some found
  obtain ⟨slot, inSlots, filtered⟩ := List.exists_of_findSome?_eq_some inQueue
  obtain ⟨rfl, -⟩ := Option.filter_eq_some_iff.mp filtered
  exact ⟨q, member, List.mem_iff_getElem?.mp inSlots⟩

/-- Slots know their position and their key, accounts respect their capacity and the
    queue names accounts; so both searches agree on what they find. -/
theorem representation (reached : Reachable config s) :
    (∀ a q (i : ℕ) (tx : PendingTx), s.accountQueues.lookup a = some q →
      q.slots[i]? = some (some tx) →
      tx.sender = a ∧ tx.nonce = q.confirmedNonce + i) ∧
    (∀ a q, s.accountQueues.lookup a = some q → q.slots.length ≤ config.perAccountCapacity) ∧
    (∀ a q (i : ℕ) (tx : PendingTx), s.accountQueues.lookup a = some q →
      q.slots[i]? = some (some tx) →
      (tx.maxFeePerGas, tx.sender, tx.nonce) ∈ s.baseFeeEligibility) ∧
    (∀ key ∈ s.priorityQueue, ∃ q, s.accountQueues.lookup key.addr = some q ∧
      q.confirmedNonce ≤ key.nonce) ∧
    (∀ (values : List AccountQueue) id tx,
      (values : Multiset AccountQueue) = s.accountQueues.entries.map Sigma.snd →
      MempoolInner.findTxById values id = some tx →
      s.findTxByAddrAndNonce tx.sender tx.nonce = some tx) := by
  obtain ⟨inv, rfl⟩ := reached.repInv
  have shown : ∀ {q : AccountQueue} {i : ℕ} {tx : PendingTx}, q.slots[i]? = some (some tx) →
      q.txAt (q.confirmedNonce + i) = some tx := by
    intro q i tx found
    rw [AccountQueue.txAt_confirmedNonce_add, found, Option.join_some]
  refine ⟨?_, fun _ _ known => inv.consistent.bounded known, ?_, inv.named, ?_⟩
  · intro a q i tx known found
    exact inv.consistent.placed known (shown found)
  · intro a q i tx known found
    exact inv.consistent.eligible known (shown found)
  · intro values id tx listed found
    obtain ⟨q, member, i, inSlot⟩ := findTxById_spec found
    have entry : q ∈ s.accountQueues.entries.map Sigma.snd := by
      rw [← listed]
      exact member
    obtain ⟨⟨a, q'⟩, inMap, rfl⟩ := Multiset.mem_map.mp entry
    have known : s.accountQueues.lookup a = some q' := Finmap.mem_lookup_iff.mpr inMap
    obtain ⟨sender, nonce⟩ := inv.consistent.placed known (shown inSlot)
    rw [sender, nonce, MempoolInner.findTx_eq known]
    exact shown inSlot

theorem representation_after_prepend :
    let s := sampleRun 5 [.pendingTransaction (sampleTx 7 5 20 10),
      .pendingTransaction (sampleTx 7 3 20 10)]
    s.accountQueues.lookup 7 =
      some ⟨3, [some (sampleTx 7 3 20 10), none, some (sampleTx 7 5 20 10)]⟩ ∧
    ∀ key ∈ s.priorityQueue, ∃ q, s.accountQueues.lookup key.addr = some q ∧
      q.confirmedNonce ≤ key.nonce :=
  ⟨by decide, (representation (reachable_sampleRun 5 _)).2.2.2.1⟩

end MempoolTracker

end Bulkmail.Mempool
