import Bulkmail.Mempool.Handle
import Bulkmail.Mempool.Incremental

/-! # The gas in front of a transaction

`gas_ahead` walks the keys in front of a transaction and looks each slot up again.  While
the paying entries of the queue are in step with the slots, the keys are those of the
marketable transactions, one each, and the sum is exact.  Entries that pay nothing come
last and are never counted; a paying key that was left behind counts its slot once more.
-/

namespace Bulkmail.Mempool

open Library

namespace MempoolInner

variable {s s' : MempoolInner} {tx t : PendingTx} {values : List AccountQueue}

/-- The gas the loop adds for a key. -/
def gasAt (s : MempoolInner) (key : PriorityKey) : ℕ :=
  (s.findTxByAddrAndNonce key.addr key.nonce).elim 0 (·.gasLimit)

theorem foldl_addGas {keys : Multiset PriorityKey} {gas : ℕ}
    (small : gas + (keys.map s.gasAt).sum < u64Size) :
    keys.foldl s.addGas (some gas) = some (gas + (keys.map s.gasAt).sum) := by
  induction keys using Multiset.induction_on generalizing gas with
  | empty => simp
  | cons key rest ih =>
      rw [Multiset.map_cons, Multiset.sum_cons, ← Nat.add_assoc] at small
      have first : s.addGas (some gas) key = some (gas + s.gasAt key) := by
        simp only [addGas, gasAt] at small ⊢
        cases found : s.findTxByAddrAndNonce key.addr key.nonce with
        | none => rfl
        | some txAhead =>
            rw [found, Option.elim_some] at small
            exact checkedAdd_of_lt (by omega)
      rw [Multiset.foldl_cons, first, ih small, Multiset.map_cons, Multiset.sum_cons,
        Nat.add_assoc]

theorem gasBefore_eq {keyForTx : PriorityKey}
    (small : ∑ key ∈ s.priorityQueue.filter (· < keyForTx), s.gasAt key < u64Size) :
    s.gasBefore keyForTx =
      some (∑ key ∈ s.priorityQueue.filter (· < keyForTx), s.gasAt key) := by
  have walked := foldl_addGas ((Nat.zero_add _).trans_lt small)
  rw [Nat.zero_add] at walked
  exact walked

def DistinctIds (s : MempoolInner) : Prop :=
  ∀ tx ∈ s.trackedTxs, ∀ other ∈ s.trackedTxs, tx.id = other.id → tx = other

instance : Decidable s.DistinctIds := inferInstanceAs (Decidable (∀ tx ∈ _, ∀ other ∈ _, _))

def trackedGas (s : MempoolInner) : ℕ := ∑ tx ∈ s.trackedTxs, tx.gasLimit

/-- The other marketable transactions whose key comes before that of `t`. -/
def aheadOf (s : MempoolInner) (t : PendingTx) : Finset PendingTx :=
  s.trackedTxs.filter fun tx => tx ≠ t ∧ s.classifyTransaction tx = some .marketable ∧
    tx.priorityKey s.currentBaseFee < t.priorityKey s.currentBaseFee

/-- For every marketable transaction, `gas_ahead` is the gas of those ahead of it. -/
def GasExact (s : MempoolInner) : Prop :=
  s.DistinctIds → s.trackedGas < u64Size → ∀ values, s.Yields values → ∀ t ∈ s.trackedTxs,
    s.classifyTransaction t = some .marketable →
    s.gasAhead values t.id = some (some (∑ tx ∈ s.aheadOf t, tx.gasLimit))

theorem findTxById_of_distinct (distinct : s.DistinctIds) (yields : s.Yields values)
    (tracked : t ∈ s.trackedTxs) : findTxById values t.id = some t := by
  cases found : findTxById values t.id with
  | none => exact absurd ⟨t, tracked, rfl⟩ (findTxById_eq_none yields found)
  | some tx =>
      obtain ⟨member, same⟩ := findTxById_eq_some yields found
      rw [distinct tx member t tracked same]

theorem mem_priorityQueue_of_synced (inv : RepInv s) (synced : s.Synced) {key : PriorityKey} :
    key ∈ s.priorityQueue ↔ ∃ tx ∈ s.trackedTxs, s.classifyTransaction tx = some .marketable ∧
      tx.priorityKey s.currentBaseFee = key := by
  rw [synced, mem_rebuildPriorityQueue]
  constructor
  · intro listed
    obtain ⟨a, q, known, n, tx, marketable, held, rfl⟩ := listed
    obtain ⟨rfl, rfl⟩ := inv.consistent.placed known held
    refine ⟨tx, mem_trackedTxs.mpr ⟨_, _, (findTx_eq known).trans held⟩, ?_, rfl⟩
    exact (classifyTransaction_eq_marketable_iff known held).mpr marketable
  · intro listed
    obtain ⟨tx, tracked, classified, rfl⟩ := listed
    obtain ⟨q, known, held⟩ := findTx_eq_some_iff.mp (findTx_of_mem_trackedTxs inv tracked)
    refine ⟨tx.sender, q, known, tx.nonce, tx, ?_, held, rfl⟩
    exact (classifyTransaction_eq_marketable_iff known held).mp classified

theorem keysBefore_of_synced (inv : RepInv s) (synced : s.Synced) (t : PendingTx) :
    s.priorityQueue.filter (· < t.priorityKey s.currentBaseFee) =
      (s.aheadOf t).image (·.priorityKey s.currentBaseFee) := by
  ext key
  simp only [Finset.mem_filter, Finset.mem_image, aheadOf, mem_priorityQueue_of_synced inv synced]
  constructor
  · intro before
    obtain ⟨⟨tx, tracked, classified, rfl⟩, less⟩ := before
    refine ⟨tx, ⟨tracked, fun same => ?_, classified, less⟩, rfl⟩
    rw [same] at less
    exact absurd less (lt_irrefl _)
  · intro ahead
    obtain ⟨tx, ⟨tracked, -, classified, less⟩, rfl⟩ := ahead
    exact ⟨⟨tx, tracked, classified, rfl⟩, less⟩

/-- Each transaction ahead has a key of its own, under which the loop finds it. -/
theorem sum_gasAt_of_synced (inv : RepInv s) (synced : s.Synced) (t : PendingTx) :
    ∑ key ∈ s.priorityQueue.filter (· < t.priorityKey s.currentBaseFee), s.gasAt key =
      ∑ tx ∈ s.aheadOf t, tx.gasLimit := by
  have tracked : ∀ tx ∈ s.aheadOf t, tx ∈ s.trackedTxs := fun tx member =>
    (Finset.mem_filter.mp member).1
  rw [keysBefore_of_synced inv synced t, Finset.sum_image]
  · refine Finset.sum_congr rfl fun tx member => ?_
    have found := findTx_of_mem_trackedTxs inv (tracked tx member)
    simp [gasAt, PendingTx.priorityKey, found]
  · intro tx member other member' same
    have found := findTx_of_mem_trackedTxs inv (tracked tx member)
    have found' := findTx_of_mem_trackedTxs inv (tracked other member')
    simp only [PendingTx.priorityKey, PriorityKey.mk.injEq] at same
    rw [same.2.1, same.2.2, found'] at found
    exact (Option.some.inj found).symm

/-! ## The paying part of the queue -/

/-- The state without the free entries of its queue, which are behind every marketable
    transaction. -/
def paying (s : MempoolInner) : MempoolInner :=
  { s with priorityQueue := s.priorityQueue.filter (0 < ·.fee) }

theorem repInv_paying (inv : RepInv s) : RepInv s.paying :=
  ⟨inv.consistent, inv.named.subset (Finset.filter_subset _ _)⟩

theorem keysBefore_paying {key : PriorityKey} (pays : 0 < key.fee) :
    s.paying.priorityQueue.filter (· < key) = s.priorityQueue.filter (· < key) := by
  ext other
  simp only [paying, Finset.mem_filter, and_assoc, and_congr_right_iff, and_iff_right_iff_imp]
  exact fun _ before => pays.trans_le (PriorityKey.fee_le before.le)

theorem pays_of_marketable (inv : RepInv s) (tracked : t ∈ s.trackedTxs)
    (classified : s.classifyTransaction t = some .marketable) : Pays s.currentBaseFee t := by
  obtain ⟨q, known, held⟩ := findTx_eq_some_iff.mp (findTx_of_mem_trackedTxs inv tracked)
  have linked := (classifyTransaction_eq_marketable_iff known held).mp classified
  obtain ⟨tx, found, pays⟩ := linked.2 t.nonce linked.1 le_rfl
  obtain rfl := Option.some.inj (held.symm.trans found)
  exact pays

theorem gasExact_of_synced (inv : RepInv s) (synced : s.paying.Synced) : s.GasExact := by
  intro distinct small values yields t tracked classified
  have pays : 0 < (t.priorityKey s.currentBaseFee).fee := pays_of_marketable inv tracked classified
  have sum : ∑ key ∈ s.priorityQueue.filter (· < t.priorityKey s.currentBaseFee), s.gasAt key =
      ∑ tx ∈ s.aheadOf t, tx.gasLimit := by
    rw [← keysBefore_paying pays]
    exact sum_gasAt_of_synced (repInv_paying inv) synced t
  have bounded : ∑ tx ∈ s.aheadOf t, tx.gasLimit < u64Size :=
    (Finset.sum_le_sum_of_subset (Finset.filter_subset _ _)).trans_lt small
  have walked : s.gasBefore (t.priorityKey s.currentBaseFee) =
      some (∑ tx ∈ s.aheadOf t, tx.gasLimit) := by
    rw [gasBefore_eq (sum.trans_lt bounded), sum]
  simp [gasAhead, findTxById_of_distinct distinct yields tracked, classified, walked]

/-- A rebuild lists nothing for free. -/
theorem synced_paying (synced : s.Synced) : s.paying.Synced := by
  have all : s.priorityQueue.filter (0 < ·.fee) = s.priorityQueue := by
    rw [Finset.filter_eq_self]
    intro key member
    rw [synced, mem_rebuildPriorityQueue] at member
    obtain ⟨a, q, known, n, tx, marketable, held, rfl⟩ := member
    obtain ⟨shown, found, pays⟩ := marketable.2 n marketable.1 le_rfl
    obtain rfl := Option.some.inj (held.symm.trans found)
    exact pays
  rw [Synced, paying, all]
  exact synced

theorem synced_applied {block : BlockUpdate} (applied : s.applyBlock block = some s') :
    s'.paying.Synced := by
  obtain ⟨gas, confirmed, -, rfl⟩ := applyBlock_spec applied
  exact synced_paying rfl

/-! ## Insertions that keep it in step -/

/-- A transaction that pays nothing is not put into its account's run, nor in front of it. -/
def StaysOut (s : MempoolInner) (tx : PendingTx) : Prop :=
  let floor := (s.queueFor tx).confirmedNonce
  ¬ ∀ m, floor ≤ m → m ≤ max floor tx.nonce → s.PaysAt tx.sender m

instance : Decidable (s.StaysOut tx) :=
  inferInstanceAs (Decidable (¬ ∀ m, _ → m ≤ max _ _ → s.PaysAt _ m))

/-- The insertion changes no more of the paying entries than a rebuild would. -/
def CountsInStep (s : MempoolInner) (tx : PendingTx) : Prop :=
  s.TurnedAway tx ∨
    (¬ s.IsFull ∧ (s.Fits tx →
      if Pays s.currentBaseFee tx then s.ExtendsRun tx else s.StaysOut tx)) ∨
    (s.IsFull ∧ ∃ worst ∈ firstKey s.priorityQueue, 0 < worst.fee ∧ s.EvictsInStep tx worst)

instance : Decidable (s.CountsInStep tx) := inferInstanceAs (Decidable (_ ∨ _))

theorem tracked_paying (pays : Pays s.currentBaseFee tx) (tracked : Tracked s tx s') :
    Tracked s.paying tx s'.paying := by
  cases tracked with
  | unfit unfit => exact .unfit unfit
  | accepted fits =>
      have kept : 0 < (tx.priorityKey s.currentBaseFee).fee := pays
      simp only [paying, Finset.filter_insert, kept, if_true]
      exact .accepted fits

theorem evicted_paying {worst : PriorityKey} {room : MempoolInner}
    (evicted : Evicted s worst room) : Evicted s.paying worst room.paying := by
  cases evicted with
  | stale gone =>
      simp only [paying, Finset.filter_erase]
      exact .stale gone
  | held known found =>
      simp only [paying, Finset.filter_erase]
      exact .held known found

theorem synced_tracked_free (inv : RepInv s) (synced : s.paying.Synced)
    (free : ¬ Pays s.currentBaseFee tx) (out : s.Fits tx → s.StaysOut tx)
    (tracked : Tracked s tx s') : s'.paying.Synced := by
  have accounts := (synced_iff (repInv_paying inv)).mp synced
  rw [synced_iff (repInv_paying (inv.tracked tracked))]
  intro a
  cases tracked with
  | unfit => exact (accounts a).trans listingOf_unfit.symm
  | accepted fits =>
      have dropped : ¬ 0 < (tx.priorityKey s.currentBaseFee).fee := free
      have queued : (Insert.insert (tx.priorityKey s.currentBaseFee) s.priorityQueue).filter
          (0 < ·.fee) = s.paying.priorityQueue := by
        rw [Finset.filter_insert, if_neg dropped]
        rfl
      have listed : s.listingOf a =
          (s.setQueue tx.sender ((s.queueFor tx).accept tx)).listingOf a := by
        rw [listingOf_accepted]
        split
        · rename_i own
          have outside := out fits
          rw [own, listingOf_sender, listing_fill_bad free]
          exact fun linked => outside linked.2
        · rfl
      simp only [queuedOf, paying, queued]
      exact (accounts a).trans listed

theorem synced_inserted (held : RepInv s ∧ s.paying.Synced) (inStep : s.CountsInStep tx)
    (inserted : s.insert tx = some s') : RepInv s' ∧ s'.paying.Synced := by
  obtain ⟨inv, synced⟩ := held
  refine ⟨inv.inserted inserted, ?_⟩
  cases insert_spec inserted with
  | turnedAway => exact synced
  | roomy room tracked =>
      have passes : ¬ s.TurnedAway tx := not_turnedAway_of_room room
      simp only [CountsInStep, passes, room, not_false_eq_true, true_and, false_and, or_false,
        false_or] at inStep
      by_cases pays : Pays s.currentBaseFee tx
      · simp only [pays, if_true] at inStep
        have kept := synced_tracked_iff (repInv_paying inv) synced (tracked_paying pays tracked)
        exact kept.mpr inStep
      · simp only [pays, if_false] at inStep
        exact synced_tracked_free inv synced pays inStep tracked
  | @evicting worst emptied s' full first outbids evicted tracked =>
      have passes : ¬ s.TurnedAway tx := not_turnedAway_of_outbids first outbids
      simp only [CountsInStep, passes, full, first, not_true_eq_false, false_and, true_and,
        false_or, Option.mem_some_iff, exists_eq_left'] at inStep
      obtain ⟨paid, evicts⟩ := inStep
      have pays : Pays emptied.currentBaseFee tx := by
        rw [currentBaseFee_evicted evicted]
        exact Nat.zero_lt_of_lt outbids
      exact (synced_evicting_iff (repInv_paying inv) synced (firstKey_filter first paid) outbids
        (evicted_paying evicted) (tracked_paying pays tracked)).mpr evicts

end MempoolInner

namespace MempoolTracker

open MempoolInner

variable {config : TrackerConfig} {s start : MempoolInner}

/-- The event changes no more of the paying entries than a rebuild would. -/
def InStep (s : MempoolInner) : MempoolEvent → Prop
  | .pendingTransaction tx => s.CountsInStep tx
  | .newBlock _ => True

instance : DecidablePred (InStep s)
  | .pendingTransaction tx => inferInstanceAs (Decidable (s.CountsInStep tx))
  | .newBlock _ => isTrue trivial

theorem synced_step {event : MempoolEvent} {s' : MempoolInner}
    (held : RepInv s ∧ s.paying.Synced) (inStep : InStep s event)
    (stepped : step s event = some s') : RepInv s' ∧ s'.paying.Synced := by
  cases event with
  | pendingTransaction tx => exact synced_inserted held inStep stepped
  | newBlock block => exact ⟨held.1.applied stepped, synced_applied stepped⟩

theorem synced_fromChannel {initialTxs : List PendingTx}
    (opened : fromChannel config initialTxs = some start)
    (inStep : EachStep MempoolInner.insert CountsInStep (.new config) initialTxs) :
    RepInv start ∧ start.paying.Synced := by
  have fresh : RepInv (.new config) ∧ (MempoolInner.new config).paying.Synced :=
    ⟨.new config, synced_paying rfl⟩
  have throughout : Throughout MempoolInner.insert (fun s => RepInv s ∧ s.paying.Synced)
      (.new config) initialTxs :=
    Throughout.of_invariant (fun _ _ _ held inStep inserted => synced_inserted held inStep inserted)
      (fun _ held => held) fresh inStep
  exact throughout.last opened

/-- From the start, and again from every block on, `gas_ahead` is exact as long as the
    insertions keep the paying entries in step. -/
theorem gas_ahead_exact {events : List MempoolEvent}
    (origin : (∃ initialTxs, fromChannel config initialTxs = some start ∧
        EachStep MempoolInner.insert CountsInStep (.new config) initialTxs) ∨
      ∃ s₀ block, Reachable config s₀ ∧ s₀.applyBlock block = some start)
    (inStep : EachStep step InStep start events) : Throughout step GasExact start events := by
  have initially : RepInv start ∧ start.paying.Synced := by
    cases origin with
    | inl opened =>
        obtain ⟨initialTxs, opened, inStep⟩ := opened
        exact synced_fromChannel opened inStep
    | inr block =>
        obtain ⟨s₀, block, reached, applied⟩ := block
        exact ⟨reached.repInv.1.applied applied, synced_applied applied⟩
  exact Throughout.of_invariant (fun _ _ _ held inStep stepped => synced_step held inStep stepped)
    (fun _ held => gasExact_of_synced held.1 held.2) initially inStep

/-- Two senders and a follow-up transaction, each counted once, and a free one that is not. -/
theorem gas_ahead_exact_of_three :
    let first := { sampleTx 1 0 20 5 with id := 1 }
    let second := { sampleTx 1 1 20 4 with id := 2 }
    let third := { sampleTx 2 0 20 3 with id := 3 }
    let free := { sampleTx 3 0 20 0 with id := 4 }
    let start := sampleRun 5 [.pendingTransaction first]
    let events := [.pendingTransaction second, .pendingTransaction free,
      .pendingTransaction third]
    (runs step start events).map (fun s => s.gasAhead [⟨0, [some third]⟩, ⟨0, [some free]⟩,
      ⟨0, [some first, some second]⟩] 3) = some (some (some 42_000)) ∧
    Throughout step GasExact start events := by
  intro first second third free start events
  have opened : fromChannel (sampleConfig 5) [first] = some start := rfl
  have begins : EachStep MempoolInner.insert CountsInStep (.new (sampleConfig 5)) [first] := by
    decide
  have inStep : EachStep step InStep start events := by decide
  exact ⟨by decide, gas_ahead_exact (.inl ⟨[first], opened, begins⟩) inStep⟩

/-- A fee bump leaves the old key in the queue, and the bumped transaction is counted
    twice for everyone behind both keys. -/
theorem gas_ahead_counts_twice :
    let first := { sampleTx 1 0 20 5 with id := 1 }
    let bumped := { sampleTx 1 0 20 9 with id := 2 }
    let other := { sampleTx 2 0 20 3 with id := 3 }
    let s := sampleRun 5 [.pendingTransaction first, .pendingTransaction bumped,
      .pendingTransaction other]
    let values : List AccountQueue := [⟨0, [some bumped]⟩, ⟨0, [some other]⟩]
    Reachable (sampleConfig 5) s ∧ s.Yields values ∧
    s.gasAhead values 3 = some (some 42_000) ∧ ∑ tx ∈ s.aheadOf other, tx.gasLimit = 21_000 ∧
    ¬ s.GasExact := by
  intro first bumped other s values
  have yields : s.Yields values := by decide
  have counted : s.gasAhead values 3 = some (some 42_000) := by decide
  have ahead : ∑ tx ∈ s.aheadOf other, tx.gasLimit = 21_000 := by decide
  refine ⟨reachable_sampleRun 5 _, yields, counted, ahead, fun exact_ => ?_⟩
  have claimed := exact_ (by decide) (by decide) values yields other (by decide) (by decide)
  rw [ahead] at claimed
  cases counted.symm.trans claimed

end MempoolTracker

end Bulkmail.Mempool
