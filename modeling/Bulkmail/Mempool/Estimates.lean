import Bulkmail.Mempool.GasAhead

/-! # Estimated blocks to confirm

`estimated_blocks_to_confirm` divides the gas in front of a transaction and its own by the
usable capacity.  What is in front is decided by the effective priority fee alone, with the
nonce only between equals, so the estimates of one sender's transactions follow its fees
and not its nonces.  The capacity is a rounded float, and a parameter here.
-/

namespace Bulkmail.Mempool

open Library

theorem PriorityKey.lt_iff {key other : PriorityKey} :
    key < other ↔ other.fee < key.fee ∨
      key.fee = other.fee ∧ (key.addr < other.addr ∨
        key.addr = other.addr ∧ key.nonce < other.nonce) := by
  change toLex (OrderDual.toDual key.fee, toLex (key.addr, key.nonce)) <
    toLex (OrderDual.toDual other.fee, toLex (other.addr, other.nonce)) ↔ _
  rw [Prod.Lex.toLex_lt_toLex, Prod.Lex.toLex_lt_toLex, OrderDual.toDual_lt_toDual,
    OrderDual.toDual_inj]

namespace MempoolInner

variable {s : MempoolInner} {first second t : PendingTx} {values : List AccountQueue}

/-- `estimated_blocks_to_confirm` with the usable capacity given. -/
def estimateAt (s : MempoolInner) (values : List AccountQueue) (capacity : ℕ) (id : TxId) :
    Option (Option ℕ) :=
  match findTxById values id with
  | none => some none
  | some tx => (s.gasAhead values id).map fun gasAhead =>
      gasAhead.map fun gas => saturatingAdd u64Size gas tx.gasLimit / capacity

theorem estimatedBlocksToConfirm_eq {id : TxId} (usable : s.usableCapacity ≠ 0) :
    s.estimatedBlocksToConfirm values id = s.estimateAt values s.usableCapacity id := by
  have same : ∀ tx, s.blocksToConfirm tx =
      fun gas => saturatingAdd u64Size gas tx.gasLimit / s.usableCapacity := by
    intro tx
    funext gas
    exact if_neg usable
  unfold estimatedBlocksToConfirm estimateAt
  cases findTxById values id with
  | none => rfl
  | some tx => simp only [same]

/-- The gas up to and including the transaction. -/
def gasThrough (s : MempoolInner) (t : PendingTx) : ℕ :=
  ∑ tx ∈ s.aheadOf t, tx.gasLimit + t.gasLimit

theorem notMem_aheadOf : t ∉ s.aheadOf t := fun member => (Finset.mem_filter.mp member).2.1 rfl

theorem gasThrough_eq_sum : s.gasThrough t = ∑ tx ∈ Insert.insert t (s.aheadOf t), tx.gasLimit := by
  rw [Finset.sum_insert notMem_aheadOf, gasThrough, Nat.add_comm]

theorem gasThrough_le_trackedGas (tracked : t ∈ s.trackedTxs) : s.gasThrough t ≤ s.trackedGas := by
  rw [gasThrough_eq_sum, trackedGas]
  apply Finset.sum_le_sum_of_subset
  exact Finset.insert_subset tracked (Finset.filter_subset _ _)

theorem estimateAt_eq (exact_ : s.GasExact) (distinct : s.DistinctIds)
    (small : s.trackedGas < u64Size) (yields : s.Yields values) (tracked : t ∈ s.trackedTxs)
    (marketable : s.classifyTransaction t = some .marketable) (capacity : ℕ) :
    s.estimateAt values capacity t.id = some (some (s.gasThrough t / capacity)) := by
  have ahead := exact_ distinct small values yields t tracked marketable
  have bounded := (gasThrough_le_trackedGas tracked).trans_lt small
  have unsaturated : saturatingAdd u64Size (∑ tx ∈ s.aheadOf t, tx.gasLimit) t.gasLimit =
      s.gasThrough t := Nat.min_eq_left (Nat.le_sub_one_of_lt bounded)
  simp only [estimateAt, findTxById_of_distinct distinct yields tracked, ahead, Option.map_some,
    unsaturated]

/-- Whoever comes first has the gas of the other behind it. -/
theorem gasThrough_add_le (tracked : first ∈ s.trackedTxs)
    (marketable : s.classifyTransaction first = some .marketable)
    (before : first.priorityKey s.currentBaseFee < second.priorityKey s.currentBaseFee) :
    s.gasThrough first + second.gasLimit ≤ s.gasThrough second := by
  have differ : first ≠ second := by
    intro same
    rw [same] at before
    exact lt_irrefl _ before
  have inFront : Insert.insert first (s.aheadOf first) ⊆ s.aheadOf second := by
    apply Finset.insert_subset
    · exact Finset.mem_filter.mpr ⟨tracked, differ, marketable, before⟩
    · intro tx member
      obtain ⟨known, -, classified, earlier⟩ := Finset.mem_filter.mp member
      refine Finset.mem_filter.mpr ⟨known, fun same => ?_, classified, earlier.trans before⟩
      rw [same] at earlier
      exact lt_asymm earlier before
  have sums := Finset.sum_le_sum_of_subset (f := fun tx : PendingTx => tx.gasLimit) inFront
  rw [← gasThrough_eq_sum] at sums
  exact Nat.add_le_add_right sums _

/-- Between a sender's transactions the fee decides, and the nonce where fees are equal. -/
theorem priorityKey_lt_iff (baseFee : ℕ) (sender : first.sender = second.sender)
    (nonces : first.nonce < second.nonce) :
    first.priorityKey baseFee < second.priorityKey baseFee ↔
      second.effectivePriorityFee baseFee ≤ first.effectivePriorityFee baseFee := by
  rw [PriorityKey.lt_iff]
  simp only [PendingTx.priorityKey, sender, nonces, lt_irrefl, false_or, and_true]
  omega

end MempoolInner

namespace MempoolTracker

open MempoolInner

variable {config : TrackerConfig} {s₀ s : MempoolInner} {block : BlockUpdate}
variable {first second : PendingTx} {values : List AccountQueue}

/-- After a block, the estimates of a sender's earlier and later transaction are in nonce
    order when the fee does not rise; when it rises they are in fee order, and some capacity
    tells them apart. -/
theorem estimates_follow_fees (reached : Reachable config s₀)
    (applied : s₀.applyBlock block = some s) (distinct : s.DistinctIds)
    (small : s.trackedGas < u64Size) (yields : s.Yields values)
    (tracked : first ∈ s.trackedTxs) (tracked' : second ∈ s.trackedTxs)
    (marketable : s.classifyTransaction first = some .marketable)
    (marketable' : s.classifyTransaction second = some .marketable)
    (sender : first.sender = second.sender) (nonces : first.nonce < second.nonce) :
    ∃ early late : ℕ → ℕ,
      (∀ capacity, s.estimateAt values capacity first.id = some (some (early capacity)) ∧
        s.estimateAt values capacity second.id = some (some (late capacity))) ∧
      (s.usableCapacity ≠ 0 →
        s.estimatedBlocksToConfirm values first.id = some (some (early s.usableCapacity)) ∧
        s.estimatedBlocksToConfirm values second.id = some (some (late s.usableCapacity))) ∧
      (s.effectivePriorityFee second ≤ s.effectivePriorityFee first →
        ∀ capacity, early capacity ≤ late capacity) ∧
      (s.effectivePriorityFee first < s.effectivePriorityFee second →
        (∀ capacity, late capacity ≤ early capacity) ∧
        (0 < first.gasLimit → ∃ capacity, 0 < capacity ∧ late capacity < early capacity)) := by
  have exact_ := gasExact_of_synced (reached.repInv.1.applied applied) (synced_applied applied)
  have order := priorityKey_lt_iff s.currentBaseFee sender nonces
  have early := estimateAt_eq exact_ distinct small yields tracked marketable
  have late := estimateAt_eq exact_ distinct small yields tracked' marketable'
  refine ⟨(s.gasThrough first / ·), (s.gasThrough second / ·),
    fun capacity => ⟨early capacity, late capacity⟩, fun usable => ?_, ?_, ?_⟩
  · rw [estimatedBlocksToConfirm_eq usable, estimatedBlocksToConfirm_eq usable]
    exact ⟨early _, late _⟩
  · intro falling capacity
    have behind := gasThrough_add_le tracked marketable (order.mpr falling)
    exact Nat.div_le_div_right (by omega)
  · intro rising
    have before : second.priorityKey s.currentBaseFee < first.priorityKey s.currentBaseFee :=
      PriorityKey.lt_iff.mpr (.inl rising)
    have behind := gasThrough_add_le tracked' marketable' before
    refine ⟨fun capacity => Nat.div_le_div_right (by omega), fun gas => ⟨1, Nat.one_pos, ?_⟩⟩
    simp only [Nat.div_one]
    omega

/-- A falling fee: the later transaction has the earlier one in front. -/
theorem estimates_follow_fees_when_falling :
    let first := { sampleTx 7 0 20 5 with id := 1 }
    let second := { sampleTx 7 1 20 4 with id := 2 }
    let s₀ := sampleRun 5 [.pendingTransaction first, .pendingTransaction second]
    ∃ s, s₀.applyBlock ⟨[], 2, 0, 0⟩ = some s ∧ ∃ early late : ℕ → ℕ, (∀ capacity,
      s.estimateAt [⟨0, [some first, some second]⟩] capacity 1 = some (some (early capacity)) ∧
      s.estimateAt [⟨0, [some first, some second]⟩] capacity 2 = some (some (late capacity))) ∧
      ∀ capacity, early capacity ≤ late capacity := by
  intro first second s₀
  let s := sampleRun 5 [.pendingTransaction first, .pendingTransaction second,
    .newBlock ⟨[], 2, 0, 0⟩]
  have applied : s₀.applyBlock ⟨[], 2, 0, 0⟩ = some s := rfl
  have yields : s.Yields [⟨0, [some first, some second]⟩] := by decide
  have tracked : first ∈ s.trackedTxs ∧ second ∈ s.trackedTxs := by decide
  have marketable : s.classifyTransaction first = some .marketable ∧
      s.classifyTransaction second = some .marketable := by decide
  obtain ⟨early, late, values, -, falling, -⟩ := estimates_follow_fees (reachable_sampleRun 5 _)
    applied (by decide) (by decide) yields tracked.1 tracked.2 marketable.1 marketable.2 rfl
    (by decide)
  exact ⟨s, applied, early, late, values, falling (by decide)⟩

/-- A rising fee: with room for one transaction in a block, the earlier one is estimated a
    block later than the one that depends on it. -/
theorem estimate_before_predecessor :
    let first := { sampleTx 7 0 20 1 with id := 1 }
    let second := { sampleTx 7 1 20 5 with id := 2 }
    let s₀ := sampleRun 5 [.pendingTransaction first, .pendingTransaction second]
    let values : List AccountQueue := [⟨0, [some first, some second]⟩]
    Reachable (sampleConfig 5) s₀ ∧ ∃ s, s₀.applyBlock ⟨[], 2, 0, 0⟩ = some s ∧
      s.DistinctIds ∧ s.trackedGas = 42_000 ∧ s.Yields values ∧
      (first ∈ s.trackedTxs ∧ second ∈ s.trackedTxs) ∧
      s.classifyTransaction first = some .marketable ∧
      s.classifyTransaction second = some .marketable ∧
      s.estimateAt values 21_000 1 = some (some 2) ∧
      s.estimateAt values 21_000 2 = some (some 1) := by
  intro first second s₀ values
  exact ⟨reachable_sampleRun 5 _, _, rfl, by decide, by decide, by decide, by decide, by decide,
    by decide, by decide, by decide⟩

end MempoolTracker

end Bulkmail.Mempool
