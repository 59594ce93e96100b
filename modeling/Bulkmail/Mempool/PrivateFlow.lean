import Bulkmail.Library.Rounding
import Bulkmail.Mempool.Transitions

/-! # The share of private order flow

Step 1 of `apply_block` keeps a moving average, in `f64`, of the part of a block's gas that
was not known before, and `estimated_blocks_to_confirm` takes that part off the capacity of
the next blocks.  The tracker's own field is a `Float`, which no proof can look into; beside
it the same expressions are computed here on exact numbers, each operation rounded as
binary64 rounds it.
-/

namespace Bulkmail.Mempool

open Library

def f64 (q : ℚ) : ℚ := FloatFormat.binary64.round q

/-- The literal `0.1`. -/
def alpha : ℚ := f64 (1 / 10)

def observedPrivateFlow (privateGas gasLimit : ℕ) : ℚ := f64 (f64 privateGas / f64 gasLimit)

def nextRatio (ratio : ℚ) (privateGas gasLimit : ℕ) : ℚ :=
  if 0 < gasLimit then
    f64 (f64 (alpha * observedPrivateFlow privateGas gasLimit) + f64 (f64 (1 - alpha) * ratio))
  else ratio

/-- The conversion to `u64` cuts the fraction off and saturates. -/
def usableCapacityAt (lastBlockGasLimit : ℕ) (ratio : ℚ) : ℕ :=
  min ⌊f64 (f64 lastBlockGasLimit * f64 (1 - ratio))⌋₊ (u64Size - 1)

/-- The end of `estimated_blocks_to_confirm`. -/
def blocksThrough (usableCapacity gas : ℕ) : ℕ :=
  if usableCapacity = 0 then u64Size - 1 else gas / usableCapacity

/-- The tracker with the exact value of its ratio. -/
structure FlowTracker where
  inner : MempoolInner
  ratio : ℚ

namespace FlowTracker

def new (config : TrackerConfig) (privateFlowPrior : ℚ) : FlowTracker :=
  ⟨.new config, privateFlowPrior⟩

def step (s : FlowTracker) (event : MempoolEvent) : Option FlowTracker := do
  let inner ← MempoolTracker.step s.inner event
  match event with
  | .pendingTransaction _ => return { s with inner }
  | .newBlock block =>
      let knownGas ← s.inner.knownGasUsed block.includedTxs
      return ⟨inner, nextRatio s.ratio (block.gasUsed - knownGas) block.gasLimit⟩

end FlowTracker

/-! ## Rounded numbers up to one -/

theorem f64_nonneg {q : ℚ} (nonneg : 0 ≤ q) : 0 ≤ f64 q := FloatFormat.round_nonneg nonneg

theorem f64_mono {q q' : ℚ} (nonneg : 0 ≤ q) (le : q ≤ q') : f64 q ≤ f64 q' :=
  FloatFormat.round_mono nonneg le

theorem f64_natCast {n : ℕ} (small : n ≤ 2 ^ 53) : f64 n = n := by
  have exact_ : FloatFormat.binary64.round (n * 2 ^ (0 : ℤ)) = n * 2 ^ (0 : ℤ) :=
    FloatFormat.round_eq_self small (by decide)
  simpa [f64] using exact_

theorem f64_le_natCast {q : ℚ} {n : ℕ} (small : n ≤ 2 ^ 53) (nonneg : 0 ≤ q) (le : q ≤ n) :
    f64 q ≤ n :=
  (f64_mono nonneg le).trans_eq (f64_natCast small)

theorem f64_le_one {q : ℚ} (nonneg : 0 ≤ q) (le : q ≤ 1) : f64 q ≤ 1 := by
  have bounded : f64 q ≤ (1 : ℕ) := f64_le_natCast (by norm_num) nonneg (by exact_mod_cast le)
  exact_mod_cast bounded

/-- The two numbers next to a tenth. -/
theorem alpha_bounds : 900719925474099 * 2 ^ (-53 : ℤ) ≤ alpha ∧
    alpha ≤ 3602879701896397 * 2 ^ (-55 : ℤ) := by
  constructor
  · exact FloatFormat.le_round (m := 900719925474099) (by decide) (by decide) (by norm_num)
  · exact FloatFormat.round_le (m := 3602879701896397) (by decide) (by decide) (by norm_num)
      (by norm_num)

theorem f64_one_sub_alpha_le : f64 (1 - alpha) ≤ 8106479329266893 * 2 ^ (-53 : ℤ) := by
  obtain ⟨lower, upper⟩ := alpha_bounds
  apply FloatFormat.round_le (m := 8106479329266893) (by decide) (by decide)
  · norm_num at upper
    linarith
  · norm_num at lower ⊢
    linarith

/-- The weights add up to a little over one, which is rounded away. -/
theorem f64_weights : f64 (1 + 2 ^ (-55 : ℤ)) = 1 := by
  have last : FloatFormat.binary64.exponent (1 + 2 ^ (-55 : ℤ)) = -52 := by
    have log : Int.log 2 (1 + 2 ^ (-55 : ℤ) : ℚ) = 0 := by
      have floor : ⌊(1 + 2 ^ (-55 : ℤ) : ℚ)⌋₊ = 1 := by
        rw [Nat.floor_eq_iff (by positivity)]
        norm_num
      rw [Int.log_of_one_le_right 2 (by norm_num), floor]
      norm_num
    rw [FloatFormat.exponent, log]
    decide
  have floor : ⌊((1 + 2 ^ (-55 : ℤ)) / 2 ^ (-52 : ℤ) : ℚ)⌋ = 2 ^ 52 := by
    rw [Int.floor_eq_iff]
    norm_num
  rw [f64, FloatFormat.round, last, halfEven, floor, if_pos]
  · norm_num
  · left
    norm_num

/-! ## The ratio and the capacity -/

theorem observedPrivateFlow_bounds {privateGas gasLimit : ℕ} (within : privateGas ≤ gasLimit) :
    0 ≤ observedPrivateFlow privateGas gasLimit ∧ observedPrivateFlow privateGas gasLimit ≤ 1 := by
  have part : 0 ≤ f64 privateGas := f64_nonneg (Nat.cast_nonneg privateGas)
  have le : f64 privateGas ≤ f64 gasLimit := f64_mono (Nat.cast_nonneg _) (by exact_mod_cast within)
  have quotient : 0 ≤ f64 privateGas / f64 gasLimit := div_nonneg part (part.trans le)
  exact ⟨f64_nonneg quotient, f64_le_one quotient (div_le_one_of_le₀ le (part.trans le))⟩

theorem nextRatio_bounds {ratio : ℚ} {privateGas gasLimit : ℕ} (within : privateGas ≤ gasLimit)
    (nonneg : 0 ≤ ratio) (fraction : ratio ≤ 1) :
    0 ≤ nextRatio ratio privateGas gasLimit ∧ nextRatio ratio privateGas gasLimit ≤ 1 := by
  unfold nextRatio
  split
  · obtain ⟨lower, upper⟩ := observedPrivateFlow_bounds within
    obtain ⟨-, tenth⟩ := alpha_bounds
    have alpha_nonneg : 0 ≤ alpha := f64_nonneg (by norm_num)
    have rest_nonneg : 0 ≤ f64 (1 - alpha) := f64_nonneg (by norm_num at tenth; linarith)
    have fresh_nonneg := mul_nonneg alpha_nonneg lower
    have old_nonneg := mul_nonneg rest_nonneg nonneg
    have fresh : f64 (alpha * observedPrivateFlow privateGas gasLimit) ≤
        3602879701896397 * 2 ^ (-55 : ℤ) :=
      FloatFormat.round_le (m := 3602879701896397) (by decide) (by decide) fresh_nonneg
        ((mul_le_of_le_one_right alpha_nonneg upper).trans tenth)
    have old : f64 (f64 (1 - alpha) * ratio) ≤ 8106479329266893 * 2 ^ (-53 : ℤ) :=
      FloatFormat.round_le (m := 8106479329266893) (by decide) (by decide) old_nonneg
        ((mul_le_of_le_one_right rest_nonneg fraction).trans f64_one_sub_alpha_le)
    have sum_nonneg := add_nonneg (f64_nonneg fresh_nonneg) (f64_nonneg old_nonneg)
    have weights : (3602879701896397 * 2 ^ (-55 : ℤ) + 8106479329266893 * 2 ^ (-53 : ℤ) : ℚ) =
        1 + 2 ^ (-55 : ℤ) := by norm_num
    refine ⟨f64_nonneg sum_nonneg, ?_⟩
    exact (f64_mono sum_nonneg ((add_le_add fresh old).trans_eq weights)).trans_eq f64_weights
  · exact ⟨nonneg, fraction⟩

variable {ratio : ℚ} {limit gas : ℕ}

theorem f64_capacity_nonneg (fraction : ratio ≤ 1) : 0 ≤ f64 limit * f64 (1 - ratio) :=
  mul_nonneg (f64_nonneg (Nat.cast_nonneg limit)) (f64_nonneg (by linarith))

theorem usableCapacityAt_le (nonneg : 0 ≤ ratio) (fraction : ratio ≤ 1) (small : limit ≤ 2 ^ 53) :
    usableCapacityAt limit ratio ≤ limit := by
  apply (min_le_left _ _).trans
  apply Nat.floor_le_of_le
  apply f64_le_natCast small (f64_capacity_nonneg fraction)
  rw [f64_natCast small]
  exact mul_le_of_le_one_right (Nat.cast_nonneg limit)
    (f64_le_one (by linarith) (by linarith))

/-- An estimate is never shorter for less capacity. -/
theorem blocksThrough_anti {capacity capacity' : ℕ} (le : capacity ≤ capacity')
    (bounded : gas < u64Size) : blocksThrough capacity' gas ≤ blocksThrough capacity gas := by
  unfold blocksThrough
  split
  · rename_i none_
    rw [if_pos (by omega)]
  · split
    · exact (Nat.div_le_self _ _).trans (by omega)
    · exact Nat.div_le_div_left le (by omega)

namespace FlowTracker

variable {config : TrackerConfig} {prior : ℚ} {s s' : FlowTracker} {event : MempoolEvent}

/-- A block does not use more gas than its limit. -/
def GasWithin : MempoolEvent → Prop
  | .pendingTransaction _ => True
  | .newBlock block => block.gasUsed ≤ block.gasLimit

instance : DecidablePred GasWithin
  | .pendingTransaction _ => inferInstanceAs (Decidable True)
  | .newBlock block => inferInstanceAs (Decidable (block.gasUsed ≤ block.gasLimit))

theorem ratio_step (within : GasWithin event) (stepped : s.step event = some s')
    (bounds : 0 ≤ s.ratio ∧ s.ratio ≤ 1) : 0 ≤ s'.ratio ∧ s'.ratio ≤ 1 := by
  obtain ⟨inner, -, rest⟩ := Option.bind_eq_some_iff.mp stepped
  cases event with
  | pendingTransaction tx =>
      cases rest
      exact bounds
  | newBlock block =>
      obtain ⟨knownGas, -, done⟩ := Option.bind_eq_some_iff.mp rest
      cases done
      exact nextRatio_bounds ((Nat.sub_le _ _).trans within) bounds.1 bounds.2

/-- The ratio keeps up with the tracker. -/
theorem exists_step {inner : MempoolInner}
    (stepped : MempoolTracker.step s.inner event = some inner) :
    ∃ ratio, s.step event = some ⟨inner, ratio⟩ := by
  cases event with
  | pendingTransaction tx => exact ⟨s.ratio, by simp [step, stepped]⟩
  | newBlock block =>
      have applied : s.inner.applyBlock block = some inner := stepped
      obtain ⟨knownGas, known, -⟩ := Option.bind_eq_some_iff.mp applied
      exact ⟨nextRatio s.ratio (block.gasUsed - knownGas) block.gasLimit, by
        simp [step, stepped, known]⟩

theorem exists_run {events : List MempoolEvent} {inner : MempoolInner}
    (within : ∀ event ∈ events, GasWithin event) (bounds : 0 ≤ s.ratio ∧ s.ratio ≤ 1)
    (ran : runs MempoolTracker.step s.inner events = some inner) :
    ∃ ratio, runs step s events = some ⟨inner, ratio⟩ ∧ 0 ≤ ratio ∧ ratio ≤ 1 := by
  induction events generalizing s with
  | nil =>
      obtain rfl := Option.some.inj ran
      exact ⟨s.ratio, rfl, bounds⟩
  | cons event rest ih =>
      obtain ⟨next, taken, later⟩ := Option.bind_eq_some_iff.mp ran
      obtain ⟨first, others⟩ := List.forall_mem_cons.mp within
      obtain ⟨ratio, stepped⟩ := exists_step taken
      obtain ⟨last, rest_ran, share⟩ := ih others (ratio_step first stepped bounds) later
      exact ⟨last, by simp [runs, stepped, rest_ran], share⟩

/-- In every run of the tracker the private share stays between zero and one, so that a
    capacity never exceeds the last block's gas limit and no estimate is shorter than without
    private flow. -/
theorem private_flow_stays_a_share {events : List MempoolEvent} {inner : MempoolInner}
    (nonneg : 0 ≤ prior) (fraction : prior ≤ 1) (within : ∀ event ∈ events, GasWithin event)
    (ran : runs MempoolTracker.step (.new config) events = some inner) :
    ∃ ratio, runs step (new config prior) events = some ⟨inner, ratio⟩ ∧
      0 ≤ ratio ∧ ratio ≤ 1 ∧
      (inner.lastBlockGasLimit ≤ 2 ^ 53 →
        usableCapacityAt inner.lastBlockGasLimit ratio ≤ inner.lastBlockGasLimit ∧
        ∀ gas < u64Size, blocksThrough inner.lastBlockGasLimit gas ≤
          blocksThrough (usableCapacityAt inner.lastBlockGasLimit ratio) gas) := by
  have bounds : 0 ≤ (new config prior).ratio ∧ (new config prior).ratio ≤ 1 := ⟨nonneg, fraction⟩
  obtain ⟨ratio, ran', low, high⟩ := exists_run within bounds ran
  refine ⟨ratio, ran', low, high, fun small => ?_⟩
  have le := usableCapacityAt_le low high small
  exact ⟨le, fun gas bounded => blocksThrough_anti le bounded⟩

/-- A block of which nothing was known before, then one of a tracked transaction. -/
theorem private_flow_stays_a_share_after_blocks :
    let events := [.newBlock ⟨[sampleTx 9 0 20 5], 1, 21_000, 30_000_000⟩,
      .pendingTransaction (sampleTx 1 0 20 5),
      .newBlock ⟨[sampleTx 1 0 20 5], 1, 21_000, 30_000_000⟩]
    ∃ inner, runs MempoolTracker.step (.new (sampleConfig 2)) events = some inner ∧
      inner.lastBlockGasLimit = 30_000_000 ∧
      ∃ ratio, runs step (new (sampleConfig 2) (1 / 10)) events = some ⟨inner, ratio⟩ ∧
        0 ≤ ratio ∧ ratio ≤ 1 ∧
        (inner.lastBlockGasLimit ≤ 2 ^ 53 →
          usableCapacityAt inner.lastBlockGasLimit ratio ≤ inner.lastBlockGasLimit ∧
          ∀ gas < u64Size, blocksThrough inner.lastBlockGasLimit gas ≤
            blocksThrough (usableCapacityAt inner.lastBlockGasLimit ratio) gas) := by
  intro events
  have shown : (runs MempoolTracker.step (.new (sampleConfig 2)) events).map
      (·.lastBlockGasLimit) = some 30_000_000 := by decide +kernel
  obtain ⟨inner, ran, limit⟩ := Option.map_eq_some_iff.mp shown
  exact ⟨inner, ran, limit,
    private_flow_stays_a_share (by norm_num) (by norm_num) (by decide) ran⟩

end FlowTracker

end Bulkmail.Mempool
