import Bulkmail.Mempool.Invariant

/-! # The rebuilt queue

Right after a block the priority queue is the set of marketable transactions, as
`classify_transaction` sees them, and the queued nonces of an account are a block
without gaps that starts at its confirmed nonce.
-/

namespace Bulkmail.Mempool.MempoolTracker

open Library MempoolInner

variable {config : TrackerConfig} {s s' : MempoolInner} {block : BlockUpdate}

/-- What a block leaves behind: the invariant, the new base fee and the rebuilt queue. -/
theorem applied_spec (reached : Reachable config s) (applied : s.applyBlock block = some s') :
    RepInv s' ∧ s'.currentBaseFee = block.newBaseFee ∧
      s'.priorityQueue = rebuildPriorityQueue block.newBaseFee s'.accountQueues := by
  have inv := reached.repInv.1.applied applied
  obtain ⟨gas, confirmed, -, rfl⟩ := applyBlock_spec applied
  exact ⟨inv, rfl, rfl⟩

theorem mem_priorityQueue_applied_iff (reached : Reachable config s)
    (applied : s.applyBlock block = some s') {fee n : ℕ} {a : Address} :
    ⟨fee, a, n⟩ ∈ s'.priorityQueue ↔
      ∃ q, s'.accountQueues.lookup a = some q ∧ q.MarketableAt block.newBaseFee n ∧
        ∃ tx, q.txAt n = some tx ∧ tx.effectivePriorityFee block.newBaseFee = fee := by
  obtain ⟨inv, -, queue⟩ := applied_spec reached applied
  rw [queue]
  exact inv.consistent.mem_rebuild_iff

/-- In the state after a block, `classify_transaction` calls a tracked transaction
    marketable exactly when its position is. -/
theorem classify_applied_iff (reached : Reachable config s)
    (applied : s.applyBlock block = some s') {a : Address} {q : AccountQueue} {n : ℕ}
    {tx : PendingTx} (known : s'.accountQueues.lookup a = some q) (held : q.txAt n = some tx) :
    s'.classifyTransaction tx = some .marketable ↔ q.MarketableAt block.newBaseFee n := by
  obtain ⟨inv, base, -⟩ := applied_spec reached applied
  obtain ⟨rfl, rfl⟩ := inv.consistent.placed known held
  rw [classifyTransaction_eq_marketable_iff known held, base]

theorem queued_nonces_applied_iff (reached : Reachable config s)
    (applied : s.applyBlock block = some s') {a : Address} {q : AccountQueue} {n : ℕ}
    (known : s'.accountQueues.lookup a = some q) :
    (∃ fee, ⟨fee, a, n⟩ ∈ s'.priorityQueue) ↔ q.MarketableAt block.newBaseFee n := by
  constructor
  · intro queued
    obtain ⟨fee, member⟩ := queued
    obtain ⟨q', known', marketable, -⟩ := (mem_priorityQueue_applied_iff reached applied).mp member
    rw [known] at known'
    obtain rfl := Option.some.inj known'
    exact marketable
  · intro marketable
    obtain ⟨tx, held, -⟩ := marketable.2 n marketable.1 le_rfl
    have entry := (mem_priorityQueue_applied_iff reached applied).mpr
      ⟨q, known, marketable, tx, held, rfl⟩
    exact ⟨_, entry⟩

theorem rebuilt_queue (reached : Reachable config s) (applied : s.applyBlock block = some s') :
    (∀ fee a n, ⟨fee, a, n⟩ ∈ s'.priorityQueue ↔
      ∃ tx, s'.findTxByAddrAndNonce a n = some tx ∧
        s'.classifyTransaction tx = some .marketable ∧
        tx.effectivePriorityFee block.newBaseFee = fee) ∧
    (∀ a q, s'.accountQueues.lookup a = some q → ∃ count, ∀ n,
      (∃ fee, ⟨fee, a, n⟩ ∈ s'.priorityQueue) ↔
        q.confirmedNonce ≤ n ∧ n < q.confirmedNonce + count) := by
  constructor
  · intro fee a n
    rw [mem_priorityQueue_applied_iff reached applied]
    constructor
    · rintro ⟨q, known, marketable, tx, held, tip⟩
      have classified := (classify_applied_iff reached applied known held).mpr marketable
      exact ⟨tx, (findTx_eq known).trans held, classified, tip⟩
    · rintro ⟨tx, found, classified, tip⟩
      obtain ⟨q, known, held⟩ := findTx_eq_some_iff.mp found
      have marketable := (classify_applied_iff reached applied known held).mp classified
      exact ⟨q, known, marketable, tx, held, tip⟩
  · intro a q known
    refine ⟨readyRun (Pays block.newBaseFee) q.slots, fun n => ?_⟩
    rw [queued_nonces_applied_iff reached applied known]
    exact AccountQueue.marketableAt_iff_lt

theorem rebuilt_queue_behind_gap :
    let s := sampleRun 5 [.pendingTransaction (sampleTx 7 0 20 10),
      .pendingTransaction (sampleTx 7 1 20 5), .pendingTransaction (sampleTx 7 3 20 9)]
    ∃ s', s.applyBlock ⟨[], 12, 0, 0⟩ = some s' ∧
      s'.priorityQueue = {⟨8, 7, 0⟩, ⟨5, 7, 1⟩} ∧
      (⟨8, 7, 0⟩ ∈ s'.priorityQueue ↔ ∃ tx, s'.findTxByAddrAndNonce 7 0 = some tx ∧
        s'.classifyTransaction tx = some .marketable ∧ tx.effectivePriorityFee 12 = 8) := by
  intro s
  obtain ⟨s', applied⟩ := Option.isSome_iff_exists.mp
    (show (s.applyBlock ⟨[], 12, 0, 0⟩).isSome by decide)
  have queue : (s.applyBlock ⟨[], 12, 0, 0⟩).map (·.priorityQueue) =
      some {⟨8, 7, 0⟩, ⟨5, 7, 1⟩} := by decide
  rw [applied] at queue
  exact ⟨s', applied, Option.some.inj queue,
    (rebuilt_queue (reachable_sampleRun 5 _) applied).1 8 7 0⟩

end Bulkmail.Mempool.MempoolTracker
