import Bulkmail.Mempool.Marketable
import Bulkmail.Mempool.Panics

/-! # What a block does

Seen from outside, a block raises each known account's confirmed nonce to one past the
largest included nonce and forgets what lies below it.  The two passes over the included
transactions, with their partial drains, add up to exactly that, so nothing depends on the
order or the multiplicity of the entries.  The base fee only enters the rebuild, and a
higher one leaves less of it.
-/

namespace Bulkmail.Mempool

open Library

namespace MempoolInner

variable {s s' : MempoolInner} {tx : PendingTx} {block block' : BlockUpdate}
variable {a : Address} {q : AccountQueue} {n b b' : ℕ}

theorem lookup_applied (applied : s.applyBlock block = some s')
    (known : s.accountQueues.lookup a = some q) :
    ∃ q', s'.accountQueues.lookup a = some q' ∧
      q'.confirmedNonce = max q.confirmedNonce (ceiling block.includedTxs a) ∧
      q'.windowEnd = max q.windowEnd (ceiling block.includedTxs a) := by
  have floors := measure_applied AccountQueue.confirmedNonce (fun _ _ => rfl) (fun _ _ => rfl)
    applied (a := a)
  have ends := measure_applied AccountQueue.windowEnd (fun _ _ => AccountQueue.windowEnd_vacate)
    (fun _ _ => AccountQueue.windowEnd_confirmTo.trans (max_comm _ _)) applied (a := a)
  rw [known, Option.map_some] at floors ends
  obtain ⟨q', found, floor⟩ := Option.map_eq_some_iff.mp floors
  rw [found, Option.map_some] at ends
  exact ⟨q', found, floor, Option.some.inj ends⟩

theorem mem_accountQueues_applied (applied : s.applyBlock block = some s') :
    a ∈ s'.accountQueues ↔ a ∈ s.accountQueues := by
  have floors := measure_applied AccountQueue.confirmedNonce (fun _ _ => rfl) (fun _ _ => rfl)
    applied (a := a)
  have same := congrArg Option.isSome floors
  rw [Option.isSome_map, Option.isSome_map] at same
  rw [← Finmap.lookup_isSome, ← Finmap.lookup_isSome, same]

/-- Below the new floor nothing is left, and above it nothing has changed. -/
theorem findTx_applied_eq (applied : s.applyBlock block = some s')
    (known : s.accountQueues.lookup a = some q) :
    s'.findTxByAddrAndNonce a n =
      if n < max q.confirmedNonce (ceiling block.includedTxs a) then none
      else s.findTxByAddrAndNonce a n := by
  rw [findTx_applied applied]
  by_cases included : n < ceiling block.includedTxs a
  · rw [if_pos (lt_ceiling_iff.mp included), if_pos (lt_max_of_lt_right included)]
  · rw [if_neg fun listed => included (lt_ceiling_iff.mpr listed)]
    by_cases below : n < q.confirmedNonce
    · rw [if_pos (lt_max_of_lt_left below), findTx_eq known, AccountQueue.txAt_below below]
    · rw [if_neg fun less => (lt_max_iff.mp less).elim below included]

theorem ceiling_congr {txs txs' : List PendingTx} (same : ∀ tx, tx ∈ txs ↔ tx ∈ txs') :
    ceiling txs a = ceiling txs' a := by
  have entries : txs.toFinset = txs'.toFinset := by
    ext tx
    rw [List.mem_toFinset, List.mem_toFinset, same]
  rw [ceiling, ceiling, entries]

/-- Blocks with the same entries, in whatever order and however often, leave the same slots. -/
theorem accountQueues_applied_congr {first second : MempoolInner}
    (same : ∀ tx, tx ∈ block.includedTxs ↔ tx ∈ block'.includedTxs)
    (applied : s.applyBlock block = some first) (applied' : s.applyBlock block' = some second) :
    first.accountQueues = second.accountQueues := by
  apply Finmap.ext_lookup
  intro a
  cases known : s.accountQueues.lookup a with
  | none =>
      have unknown : a ∉ s.accountQueues := Finmap.lookup_eq_none.mp known
      rw [Finmap.lookup_eq_none.mpr fun member =>
          unknown ((mem_accountQueues_applied applied).mp member),
        Finmap.lookup_eq_none.mpr fun member =>
          unknown ((mem_accountQueues_applied applied').mp member)]
  | some q =>
      obtain ⟨q₁, found, floor, ending⟩ := lookup_applied applied known
      obtain ⟨q₂, found', floor', ending'⟩ := lookup_applied applied' known
      rw [found, found']
      congr 1
      apply AccountQueue.eq_of_view
      · rw [floor, floor', ceiling_congr same]
      · rw [ending, ending', ceiling_congr same]
      · intro n
        rw [← findTx_eq found, ← findTx_eq found', findTx_applied_eq applied known,
          findTx_applied_eq applied' known, ceiling_congr same]

theorem priorityQueue_applied (applied : s.applyBlock block = some s') :
    s'.priorityQueue = rebuildPriorityQueue block.newBaseFee s'.accountQueues := by
  obtain ⟨gas, confirmed, -, rfl⟩ := applyBlock_spec applied
  rfl

/-- The base fee of a block only enters the rebuild. -/
theorem applyBlock_reprice :
    s.applyBlock { block with newBaseFee := b } = (s.applyBlock block).map (·.reprice b) := by
  unfold applyBlock
  cases s.knownGasUsed block.includedTxs with
  | none => rfl
  | some gas =>
      change (runs confirmIncluded _ block.includedTxs).bind _ =
        ((runs confirmIncluded _ block.includedTxs).bind _).map _
      rw [Option.map_bind]
      rfl

end MempoolInner

/-! ## A higher base fee -/

variable {tx : PendingTx} {q : AccountQueue} {n b b' : ℕ}

theorem effectivePriorityFee_antitone (tx : PendingTx) (le : b ≤ b') :
    tx.effectivePriorityFee b' ≤ tx.effectivePriorityFee b := by
  unfold PendingTx.effectivePriorityFee
  omega

theorem Pays.antitone (le : b ≤ b') (pays : Pays b' tx) : Pays b tx :=
  Nat.lt_of_lt_of_le pays (effectivePriorityFee_antitone tx le)

/-- A run of paying transactions is a run at any lower base fee. -/
theorem AccountQueue.marketableAt_antitone (le : b ≤ b') (marketable : q.MarketableAt b' n) :
    q.MarketableAt b n := by
  refine ⟨marketable.1, fun m above below => ?_⟩
  obtain ⟨tx, held, pays⟩ := marketable.2 m above below
  exact ⟨tx, held, pays.antitone le⟩

namespace MempoolInner

variable {s : MempoolInner}

theorem classify_reprice_antitone (le : b ≤ b')
    (classified : (s.reprice b').classifyTransaction tx = some .marketable) :
    (s.reprice b).classifyTransaction tx = some .marketable := by
  rw [classifyTransaction_marketable] at classified ⊢
  obtain ⟨q, known, above, front, pays⟩ := classified
  refine ⟨q, known, above, fun i inside => ?_, pays.antitone le⟩
  obtain ⟨before, held, paid⟩ := front i inside
  exact ⟨before, held, paid.antitone le⟩

end MempoolInner

namespace MempoolTracker

open MempoolInner

variable {config : TrackerConfig} {s : MempoolInner} {block : BlockUpdate}

/-- In every state, a block goes through unless the known gas overflows.  It raises floors
    past the included nonces, forgets what is below and keeps the rest and the accounts; its
    entries count as a set. -/
theorem block_effect (fits : ∀ tx ∈ block.includedTxs, tx.NonceFits) :
    ((∃ s', s.applyBlock block = some s') ↔
      (s.knownGasLimits block.includedTxs).sum < u64Size) ∧
    ∀ s', s.applyBlock block = some s' →
      (∀ a, a ∈ s'.accountQueues ↔ a ∈ s.accountQueues) ∧
      (∀ a q, s.accountQueues.lookup a = some q →
        let floor := max q.confirmedNonce (ceiling block.includedTxs a)
        s'.confirmedNonceOf a = some floor ∧
          ∀ n, s'.findTxByAddrAndNonce a n =
            if n < floor then none else s.findTxByAddrAndNonce a n) ∧
      ∀ block' s'', (∀ tx, tx ∈ block'.includedTxs ↔ tx ∈ block.includedTxs) →
        block'.newBaseFee = block.newBaseFee → s.applyBlock block' = some s'' →
        s''.accountQueues = s'.accountQueues ∧ s''.priorityQueue = s'.priorityQueue := by
  refine ⟨exists_applyBlock_iff fits, fun s' applied => ⟨fun a => ?_, ?_, ?_⟩⟩
  · exact mem_accountQueues_applied applied
  · intro a q known floor
    have at_ : s.confirmedNonceOf a = some q.confirmedNonce := by
      rw [confirmedNonceOf, known, Option.map_some]
    exact ⟨confirmedNonceOf_applied applied at_, fun n => findTx_applied_eq applied known⟩
  · intro block' s'' same base applied'
    have queues := accountQueues_applied_congr same applied' applied
    refine ⟨queues, ?_⟩
    rw [priorityQueue_applied applied', priorityQueue_applied applied, queues, base]

/-- A repeated entry and an untracked sender. -/
theorem block_effect_on_repeats :
    let s := sampleRun 5 [.pendingTransaction (sampleTx 7 3 20 10),
      .pendingTransaction (sampleTx 7 5 20 10)]
    let block : BlockUpdate :=
      ⟨[sampleTx 7 3 20 10, sampleTx 9 1 20 1, sampleTx 7 3 20 10], 2, 0, 0⟩
    ∃ s', s.applyBlock block = some s' ∧ s'.confirmedNonceOf 7 = some 4 ∧
      s'.findTxByAddrAndNonce 7 5 = some (sampleTx 7 5 20 10) ∧
      s'.findTxByAddrAndNonce 7 3 = none := by
  intro s block
  have fits : ∀ tx ∈ block.includedTxs, tx.NonceFits := by decide
  obtain ⟨goes, effect⟩ := block_effect fits (s := s)
  obtain ⟨s', applied⟩ := goes.mpr (by decide)
  have known : s.accountQueues.lookup 7 =
      some ⟨3, [some (sampleTx 7 3 20 10), none, some (sampleTx 7 5 20 10)]⟩ := by decide
  obtain ⟨floor, view⟩ := (effect s' applied).2.1 7 _ known
  exact ⟨s', applied, floor, view 5, view 3⟩

/-- With a lower base fee everything queued stays queued, at no lower a fee, and everything
    marketable stays marketable. -/
theorem marketability_antitone {b b' : ℕ} {high : MempoolInner} (reached : Reachable config s)
    (le : b ≤ b') (applied : s.applyBlock { block with newBaseFee := b' } = some high) :
    ∃ low, s.applyBlock { block with newBaseFee := b } = some low ∧
      (∀ fee a n, ⟨fee, a, n⟩ ∈ high.priorityQueue →
        ∃ fee', fee ≤ fee' ∧ ⟨fee', a, n⟩ ∈ low.priorityQueue) ∧
      ∀ tx, high.classifyTransaction tx = some .marketable →
        low.classifyTransaction tx = some .marketable := by
  have before := applied
  rw [applyBlock_reprice] at before
  obtain ⟨s', base, rfl⟩ := Option.map_eq_some_iff.mp before
  have applied' : s.applyBlock { block with newBaseFee := b } = some (s'.reprice b) := by
    rw [applyBlock_reprice, base, Option.map_some]
  refine ⟨s'.reprice b, applied', fun fee a n queued => ?_, fun tx => ?_⟩
  · obtain ⟨q, known, marketable, tx, held, rfl⟩ :=
      (mem_priorityQueue_applied_iff reached applied).mp queued
    refine ⟨_, effectivePriorityFee_antitone tx le, ?_⟩
    exact (mem_priorityQueue_applied_iff reached applied').mpr
      ⟨q, known, AccountQueue.marketableAt_antitone le marketable, tx, held, rfl⟩
  · exact classify_reprice_antitone le

/-- The second transaction drops out at 18 and with it the third; at 12 all three are queued. -/
theorem marketability_antitone_behind_dropout :
    let s := sampleRun 5 [.pendingTransaction (sampleTx 7 0 20 10),
      .pendingTransaction (sampleTx 7 1 15 5), .pendingTransaction (sampleTx 7 2 20 9)]
    ∃ high low, s.applyBlock ⟨[], 18, 0, 0⟩ = some high ∧ s.applyBlock ⟨[], 12, 0, 0⟩ = some low ∧
      high.priorityQueue = {⟨2, 7, 0⟩} ∧
      ∀ fee a n, ⟨fee, a, n⟩ ∈ high.priorityQueue →
        ∃ fee', fee ≤ fee' ∧ ⟨fee', a, n⟩ ∈ low.priorityQueue := by
  intro s
  obtain ⟨high, applied⟩ := Option.isSome_iff_exists.mp
    (show (s.applyBlock ⟨[], 18, 0, 0⟩).isSome by decide)
  have queue : (s.applyBlock ⟨[], 18, 0, 0⟩).map (·.priorityQueue) = some {⟨2, 7, 0⟩} := by decide
  rw [applied] at queue
  obtain ⟨low, applied', queued, -⟩ := marketability_antitone (reachable_sampleRun 5 _)
    (show 12 ≤ 18 by decide) (show s.applyBlock { (⟨[], 0, 0, 0⟩ : BlockUpdate) with
      newBaseFee := 18 } = some high from applied)
  exact ⟨high, low, applied, applied', Option.some.inj queue, queued⟩

end MempoolTracker

end Bulkmail.Mempool
