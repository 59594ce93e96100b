import Bulkmail.Mempool.Capacity
import Bulkmail.Mempool.View

/-! # Stale eligibility keys

The eligibility index is never rebuilt, so a key that outlives its transaction counts
against the global capacity for good.  Two operations leave such keys behind: a
replacement under another `max_fee_per_gas`, and a block that passes over a tracked
nonce without including it.
-/

namespace Bulkmail.Mempool

open Library

namespace MempoolInner

variable {s s' : MempoolInner} {tx : PendingTx} {key : PriorityKey} {block : BlockUpdate}

def NoStaleKeys (s : MempoolInner) : Prop :=
  ∀ fee a n, (fee, a, n) ∈ s.baseFeeEligibility →
    ∃ tx, s.findTxByAddrAndNonce a n = some tx ∧ tx.maxFeePerGas = fee

theorem NoStaleKeys.card_le (inv : RepInv s) (fresh : s.NoStaleKeys) :
    s.baseFeeEligibility.card ≤ s.occupiedSlots := by
  rw [occupiedSlots_eq_card inv]
  apply Finset.card_le_card
  rintro ⟨fee, a, n⟩ member
  obtain ⟨tx, held, rfl⟩ := fresh fee a n member
  obtain ⟨sender, nonce⟩ := inv.placed held
  exact mem_trackedKeys.mpr ⟨a, n, tx, held, by rw [PendingTx.eligibilityKey, sender, nonce]⟩

/-! ## Insertion -/

/-- The insertion pops the key of the very position the transaction goes to. -/
def EvictsAt (s : MempoolInner) (tx : PendingTx) : Prop :=
  s.IsFull ∧ ∃ worst ∈ firstKey s.priorityQueue, worst.addr = tx.sender ∧ worst.nonce = tx.nonce

instance : Decidable (s.EvictsAt tx) := inferInstanceAs (Decidable (_ ∧ _))

/-- The insertion does not replace a transaction of another `max_fee_per_gas`. -/
def KeepsFee (s : MempoolInner) (tx : PendingTx) : Prop :=
  s.TurnedAway tx ∨ ¬ s.Fits tx ∨ s.EvictsAt tx ∨
    ∀ old ∈ s.findTxByAddrAndNonce tx.sender tx.nonce, old.maxFeePerGas = tx.maxFeePerGas

instance : Decidable (s.KeepsFee tx) := inferInstanceAs (Decidable (_ ∨ _))

theorem NoStaleKeys.evicted (fresh : s.NoStaleKeys) (evicted : Evicted s key s') :
    s'.NoStaleKeys := by
  intro fee a n member
  have view := findTx_evicted evicted (a := a) (n := n)
  cases evicted with
  | stale empty =>
      obtain ⟨tx, held, paid⟩ := fresh fee a n member
      exact ⟨tx, held, paid⟩
  | @held q victim known found =>
      obtain ⟨differ, member⟩ := Finset.mem_erase.mp member
      obtain ⟨tx, held, rfl⟩ := fresh fee a n member
      rw [view]
      split
      · rename_i here
        obtain ⟨rfl, rfl⟩ := here
        rw [findTx_eq known, found] at held
        obtain rfl := Option.some.inj held
        exact absurd rfl differ
      · exact ⟨tx, held, rfl⟩

theorem NoStaleKeys.tracked (fresh : s.NoStaleKeys) (tracked : Tracked s tx s')
    (kept : s.Fits tx → ∀ old ∈ s.findTxByAddrAndNonce tx.sender tx.nonce,
      old.maxFeePerGas = tx.maxFeePerGas) : s'.NoStaleKeys := by
  intro fee a n member
  cases tracked with
  | unfit =>
      rw [findTx_unfit]
      exact fresh fee a n member
  | accepted fits =>
      have view : _ = if a = tx.sender ∧ n = tx.nonce then some tx else _ :=
        findTx_accepted (s := s)
      change ∃ tx', (s.setQueue tx.sender _).findTxByAddrAndNonce a n = some tx' ∧ _
      rw [view]
      rcases Finset.mem_insert.mp member with same | member
      · simp only [PendingTx.eligibilityKey, Prod.mk.injEq] at same
        exact ⟨tx, if_pos same.2, same.1.symm⟩
      · obtain ⟨old, held, rfl⟩ := fresh fee a n member
        split
        · rename_i here
          obtain ⟨rfl, rfl⟩ := here
          exact ⟨tx, rfl, (kept fits old held).symm⟩
        · exact ⟨old, held, rfl⟩

/-- A replaced transaction's key stays in the index. -/
theorem NoStaleKeys.of_tracked (inv : RepInv s) (tracked : Tracked s tx s') (fits : s.Fits tx)
    (fresh : s'.NoStaleKeys) {old : PendingTx}
    (held : s.findTxByAddrAndNonce tx.sender tx.nonce = some old) :
    old.maxFeePerGas = tx.maxFeePerGas := by
  obtain ⟨q, known, found⟩ := findTx_eq_some_iff.mp held
  obtain ⟨sender, nonce⟩ := inv.consistent.placed known found
  have member := inv.consistent.eligible known found
  rw [PendingTx.eligibilityKey, sender, nonce] at member
  cases tracked with
  | unfit unfit => exact absurd fits unfit
  | accepted =>
      obtain ⟨new, there, paid⟩ := fresh _ _ _ (Finset.mem_insert_of_mem member)
      have placed := there.symm.trans (findTx_accepted.trans (if_pos ⟨rfl, rfl⟩))
      obtain rfl := Option.some.inj placed
      exact paid.symm

theorem NoStaleKeys.inserted (fresh : s.NoStaleKeys) (keeps : s.KeepsFee tx)
    (inserted : s.insert tx = some s') : s'.NoStaleKeys := by
  cases insert_spec inserted with
  | turnedAway => exact fresh
  | roomy room tracked =>
      apply fresh.tracked tracked
      intro fits
      rcases keeps with away | unfit | evicts | kept
      · exact absurd away.1 room
      · exact absurd fits unfit
      · exact absurd evicts.1 room
      · exact kept
  | @evicting worst emptied s' full first outbids evicted tracked =>
      apply (fresh.evicted evicted).tracked tracked
      intro fits old held
      rw [findTx_evicted evicted] at held
      split at held
      · cases held
      · rename_i elsewhere
        rcases keeps with away | unfit | evicts | kept
        · exact absurd (away.2 worst first) (Nat.not_le.mpr outbids)
        · exact absurd ((fits_evicted evicted).mp fits) unfit
        · obtain ⟨-, other, popped, addr, nonce⟩ := evicts
          rw [first] at popped
          obtain rfl := Option.some.inj popped
          exact absurd ⟨addr.symm, nonce.symm⟩ elsewhere
        · exact kept old held

theorem keepsFee_of_inserted (inv : RepInv s) (inserted : s.insert tx = some s')
    (fresh : s'.NoStaleKeys) : s.KeepsFee tx := by
  by_cases unfit : s.Fits tx
  swap
  · exact .inr (.inl unfit)
  by_cases evicts : s.EvictsAt tx
  · exact .inr (.inr (.inl evicts))
  cases insert_spec inserted with
  | turnedAway away => exact .inl away
  | roomy _ tracked =>
      exact .inr (.inr (.inr fun old held => fresh.of_tracked inv tracked unfit held))
  | evicting full first _ evicted tracked =>
      refine .inr (.inr (.inr fun old held => ?_))
      apply fresh.of_tracked (inv.evicted evicted) tracked ((fits_evicted evicted).mpr unfit)
      rw [findTx_evicted evicted, if_neg, held]
      exact fun here => evicts ⟨full, _, first, here.1.symm, here.2.symm⟩

/-! ## Blocks -/

/-- Every tracked nonce the block passes over is one it includes. -/
def IncludesPassed (s : MempoolInner) (block : BlockUpdate) : Prop :=
  ∀ tx ∈ block.includedTxs, ∀ m < tx.nonce, s.findTxByAddrAndNonce tx.sender m ≠ none →
    ∃ other ∈ block.includedTxs, other.sender = tx.sender ∧ other.nonce = m

instance : Decidable (s.IncludesPassed block) := inferInstanceAs (Decidable (∀ _, _))

theorem NoStaleKeys.removed
    (consistent : Consistent s.config.perAccountCapacity s.accountQueues s.baseFeeEligibility)
    (fresh : s.NoStaleKeys) (removed : Removed s tx s') : s'.NoStaleKeys := by
  cases removed with
  | untracked => exact fresh
  | @tracked q mempoolTx known found =>
      obtain ⟨sender, nonce⟩ := consistent.placed known found
      have popped : Evicted s ⟨mempoolTx.effectivePriorityFee s.currentBaseFee, tx.sender, tx.nonce⟩
          _ := .held known found
      rw [PendingTx.eligibilityKey, PendingTx.priorityKey, sender, nonce]
      exact fresh.evicted popped

theorem NoStaleKeys.foldl_removeIncluded (txs : List PendingTx)
    (consistent : Consistent s.config.perAccountCapacity s.accountQueues s.baseFeeEligibility)
    (fresh : s.NoStaleKeys) : (txs.foldl removeIncluded s).NoStaleKeys := by
  induction txs generalizing s with
  | nil => exact fresh
  | cons tx rest ih =>
      have removed := removeIncluded_spec s tx
      exact ih (RepInv.consistent_removed consistent removed) (fresh.removed consistent removed)

theorem baseFeeEligibility_runs_confirmIncluded {txs : List PendingTx}
    (ran : runs confirmIncluded s txs = some s') :
    s'.baseFeeEligibility = s.baseFeeEligibility := by
  let inv : MempoolInner → Prop := fun later => later.baseFeeEligibility = s.baseFeeEligibility
  have unchanged : ∀ s₁ tx s₂, inv s₁ → s₁.confirmIncluded tx = some s₂ → inv s₂ := by
    intro s₁ tx s₂ same taken
    cases confirmIncluded_spec taken <;> exact same
  have final : inv s' := runs_invariant unchanged rfl ran
  exact final

theorem NoStaleKeys.applied (inv : RepInv s) (fresh : s.NoStaleKeys)
    (passed : s.IncludesPassed block) (applied : s.applyBlock block = some s') :
    s'.NoStaleKeys := by
  intro fee a n member
  have view := findTx_applied applied (a := a) (n := n)
  obtain ⟨gas, confirmed, ran, rfl⟩ := applyBlock_spec applied
  change (fee, a, n) ∈ confirmed.baseFeeEligibility at member
  rw [baseFeeEligibility_runs_confirmIncluded ran] at member
  obtain ⟨tx, held, paid⟩ :=
    (NoStaleKeys.foldl_removeIncluded block.includedTxs (s := s.updatePrivateFlow block gas)
      inv.consistent fresh) fee a n member
  rw [findTx_foldl_removeIncluded] at held
  split at held
  · cases held
  · rename_i untouched
    change s.findTxByAddrAndNonce a n = some tx at held
    refine ⟨tx, ?_, paid⟩
    rw [view, if_neg, held]
    rintro ⟨included, inBlock, rfl, le⟩
    rcases Nat.lt_or_eq_of_le le with less | rfl
    · obtain ⟨other, inBlock', sender, rfl⟩ :=
        passed included inBlock n less (by rw [held]; exact Option.some_ne_none tx)
      exact untouched ⟨other, inBlock', sender.symm, rfl⟩
    · exact untouched ⟨included, inBlock, rfl, rfl⟩

theorem includesPassed_of_applied (inv : RepInv s) (applied : s.applyBlock block = some s')
    (fresh : s'.NoStaleKeys) : s.IncludesPassed block := by
  intro tx inBlock m below tracked
  by_contra skipped
  obtain ⟨old, held⟩ := Option.ne_none_iff_exists'.mp tracked
  have gone : s'.findTxByAddrAndNonce tx.sender m = none :=
    (findTx_applied applied).trans (if_pos ⟨tx, inBlock, rfl, below.le⟩)
  obtain ⟨gas, confirmed, ran, rfl⟩ := applyBlock_spec applied
  have kept : (block.includedTxs.foldl removeIncluded
      (s.updatePrivateFlow block gas)).findTxByAddrAndNonce tx.sender m = some old := by
    rw [findTx_foldl_removeIncluded, if_neg]
    · exact held
    · rintro ⟨other, member, sender, nonce⟩
      exact skipped ⟨other, member, sender.symm, nonce.symm⟩
  have consistent := RepInv.consistent_foldl_removeIncluded block.includedTxs
    (s := s.updatePrivateFlow block gas) inv.consistent
  obtain ⟨q, known, found⟩ := findTx_eq_some_iff.mp kept
  obtain ⟨sender, nonce⟩ := consistent.placed known found
  have member := consistent.eligible known found
  rw [← baseFeeEligibility_runs_confirmIncluded ran, PendingTx.eligibilityKey, sender, nonce]
    at member
  obtain ⟨new, there, -⟩ := fresh _ _ _ member
  rw [gone] at there
  cases there

end MempoolInner

namespace MempoolTracker

open MempoolInner

def KeepsKeys (s : MempoolInner) : MempoolEvent → Prop
  | .pendingTransaction tx => s.KeepsFee tx
  | .newBlock block => s.IncludesPassed block

instance (s : MempoolInner) : ∀ event, Decidable (KeepsKeys s event)
  | .pendingTransaction tx => inferInstanceAs (Decidable (s.KeepsFee tx))
  | .newBlock block => inferInstanceAs (Decidable (s.IncludesPassed block))

/-- The index counts tracked transactions and nothing else. -/
def EligibilityTight (s : MempoolInner) : Prop :=
  s.NoStaleKeys ∧ s.baseFeeEligibility.card ≤ s.occupiedSlots

theorem eligibilityTight_iff {s : MempoolInner} (inv : RepInv s) :
    EligibilityTight s ↔ s.NoStaleKeys :=
  ⟨And.left, fun fresh => ⟨fresh, fresh.card_le inv⟩⟩

theorem eligibilityTight_inserted_iff {s s' : MempoolInner} {tx : PendingTx} (inv : RepInv s)
    (tight : EligibilityTight s) (inserted : s.insert tx = some s') :
    EligibilityTight s' ↔ s.KeepsFee tx := by
  rw [eligibilityTight_iff (inv.inserted inserted)]
  exact ⟨keepsFee_of_inserted inv inserted, fun keeps => tight.1.inserted keeps inserted⟩

theorem eligibilityTight_applied_iff {s s' : MempoolInner} {block : BlockUpdate} (inv : RepInv s)
    (tight : EligibilityTight s) (applied : s.applyBlock block = some s') :
    EligibilityTight s' ↔ s.IncludesPassed block := by
  rw [eligibilityTight_iff (inv.applied applied)]
  exact ⟨includesPassed_of_applied inv applied, fun passed => tight.1.applied inv passed applied⟩

theorem eligibility_tight_iff {config : TrackerConfig} {initialTxs : List PendingTx}
    {events : List MempoolEvent} {start s : MempoolInner}
    (opened : fromChannel config initialTxs = some start)
    (ran : runs step start events = some s) :
    (Throughout MempoolInner.insert EligibilityTight (.new config) initialTxs ∧
      Throughout step EligibilityTight start events) ↔
    EachStep MempoolInner.insert KeepsFee (.new config) initialTxs ∧
      EachStep step KeepsKeys start events := by
  have initially : EligibilityTight (.new config) :=
    ⟨fun _ _ _ member => absurd member (Finset.notMem_empty _), Nat.zero_le _⟩
  apply throughout_iff EligibilityTight KeepsKeys initially ?_ ?_ opened ran
  · exact fun s tx s' inv _ tight inserted => eligibilityTight_inserted_iff inv tight inserted
  · exact fun s block s' inv _ tight applied => eligibilityTight_applied_iff inv tight applied

/-- A replacement at the same fee, an eviction and a full block all clean up. -/
theorem eligibility_tight_after_eviction :
    let initialTxs := [sampleTx 1 0 20 5, sampleTx 1 0 20 4]
    let start := sampleRun 1 (initialTxs.map .pendingTransaction)
    let events :=
      [.pendingTransaction (sampleTx 2 0 20 9), .newBlock ⟨[sampleTx 2 0 20 9], 0, 0, 0⟩]
    fromChannel (sampleConfig 1) initialTxs = some start ∧
    ∃ s, runs step start events = some s ∧
      Throughout MempoolInner.insert EligibilityTight (.new (sampleConfig 1)) initialTxs ∧
      Throughout step EligibilityTight start events := by
  intro initialTxs start events
  have opened : fromChannel (sampleConfig 1) initialTxs = some start := rfl
  exact ⟨opened, _, rfl, (eligibility_tight_iff opened rfl).mpr ⟨by decide, by decide⟩⟩

/-- A fee bump leaves the old key, and so does a block that skips nonce 0. -/
theorem eligibility_stale_after_replacement :
    let bumped := sampleRun 5 [.pendingTransaction (sampleTx 1 0 20 5),
      .pendingTransaction (sampleTx 1 0 30 5)]
    let skipped := sampleRun 5 [.pendingTransaction (sampleTx 1 0 20 5),
      .newBlock ⟨[sampleTx 1 1 20 5], 0, 0, 0⟩]
    (Reachable (sampleConfig 5) bumped ∧ ¬ bumped.NoStaleKeys ∧
      bumped.occupiedSlots < bumped.baseFeeEligibility.card) ∧
    Reachable (sampleConfig 5) skipped ∧ ¬ skipped.NoStaleKeys ∧
      skipped.occupiedSlots < skipped.baseFeeEligibility.card := by
  intro bumped skipped
  refine ⟨⟨reachable_sampleRun 5 _, fun fresh => ?_, by decide⟩,
    reachable_sampleRun 5 _, fun fresh => ?_, by decide⟩
  · obtain ⟨tx, held, paid⟩ := fresh 20 1 0 (by decide)
    have there : bumped.findTxByAddrAndNonce 1 0 = some (sampleTx 1 0 30 5) := by decide
    rw [there] at held
    obtain rfl := Option.some.inj held
    exact absurd paid (by decide)
  · obtain ⟨tx, held, -⟩ := fresh 20 1 0 (by decide)
    have there : skipped.findTxByAddrAndNonce 1 0 = none := by decide
    rw [there] at held
    cases held

end MempoolTracker

end Bulkmail.Mempool
