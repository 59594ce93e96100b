import Bulkmail.Library.Binary64
import Bulkmail.Sender.Message

/-! # The gas price manager

`bulkmail/src/gas_price.rs`.  Fees are wei in `u128` and durations are nanoseconds; a
result of `none` is a panic.  The two guarded fields have a mutex each, so a call that
uses both is two critical sections, and the functions here are what happens under one
guard and between the two.
-/

namespace Bulkmail.Ethereum

open Library Sender

def maxPriorityFee : ℕ := 100_000_000_000

def initialPriorityFee : ℕ := 1_000_000_000

def initialBaseFee : ℕ := 2_000_000_000

def confirmationTimeWindow : ℕ := 10

def nanosPerSec : ℕ := 1_000_000_000

def congestionThresholdLow : ℕ := 15 * nanosPerSec

def congestionThresholdMedium : ℕ := 60 * nanosPerSec

inductive CongestionLevel where
  | low
  | medium
  | high
  deriving DecidableEq, Repr

def CongestionLevel.multiplier : CongestionLevel → ℕ
  | .low => 1
  | .medium => 2
  | .high => 3

structure GasPriceManager where
  confirmationTimes : List ℕ
  priorityFee : ℕ
  deriving DecidableEq, Repr

/-- Called with a positive `y`. -/
def percent (x y : ℕ) : ℕ :=
  (((Binary64.ofNat x).div (Binary64.ofNat y)).mul (Binary64.ofNat 100)).toNat

namespace GasPriceManager

def new : GasPriceManager := ⟨[], initialPriorityFee⟩

/-- The sum overflows where its seconds leave `u64`. -/
def analyzeNetworkCongestion (confirmationTimes : List ℕ) : Option CongestionLevel :=
  if confirmationTimes = [] then some .medium
  else if confirmationTimes.sum < u64Size * nanosPerSec then
    let avgTime := confirmationTimes.sum / confirmationTimes.length
    if avgTime < congestionThresholdLow then some .low
    else if avgTime < congestionThresholdMedium then some .medium
    else some .high
  else none

/-- The arithmetic of `calculate_priority_fee`, on the estimate and the level it has read. -/
def scalePriorityFee (basePriorityFee : ℕ) (congestion : CongestionLevel) (priority : ℕ) :
    Option ℕ := do
  let priorityMultiplier ← checkedAdd u128Size 100
    (percent (min priority Message.maxPriority) Message.maxPriority)
  let congested ← checkedMul u128Size basePriorityFee congestion.multiplier
  let fee ← checkedMul u128Size congested priorityMultiplier
  return min (fee / 100) maxPriorityFee

/-- `calculate_priority_fee` from the second lock on. -/
def calculatePriorityFee (gas : GasPriceManager) (basePriorityFee priority : ℕ) : Option ℕ :=
  (analyzeNetworkCongestion gas.confirmationTimes).bind fun congestion =>
    scalePriorityFee basePriorityFee congestion priority

/-- The first critical section of `update_on_confirmation`. -/
def recordConfirmationTime (gas : GasPriceManager) (confirmationTime : ℕ) : GasPriceManager :=
  let times := gas.confirmationTimes ++ [confirmationTime]
  { gas with
    confirmationTimes := if confirmationTimeWindow < times.length then times.tail else times }

/-- The second critical section of `update_on_confirmation`. -/
def blendPriorityFee (gas : GasPriceManager) (usedPriorityFee : ℕ) : Option GasPriceManager :=
  (checkedAdd u128Size gas.priorityFee usedPriorityFee).map fun total =>
    { gas with priorityFee := total / 2 }

end GasPriceManager

theorem percent_le {x y : ℕ} (bounded : x ≤ y) : percent x y ≤ 100 := by
  have quotient := Binary64.atMost_div_ofNat bounded
  have hundred := Binary64.atMost_ofNat (le_refl 100)
  have product := Binary64.toNat_le (Binary64.atMost_mul quotient hundred)
  rwa [Nat.one_mul] at product

theorem CongestionLevel.multiplier_bounds (congestion : CongestionLevel) :
    1 ≤ congestion.multiplier ∧ congestion.multiplier ≤ 3 := by
  cases congestion <;> decide

/-- A sane estimate is scaled without overflow, never below itself and never over the cap. -/
theorem GasPriceManager.scalePriorityFee_spec {base : ℕ} (sane : base < 2 ^ 100)
    (congestion : CongestionLevel) (priority : ℕ) :
    ∃ fee, scalePriorityFee base congestion priority = some fee ∧
      min base maxPriorityFee ≤ fee ∧ fee ≤ maxPriorityFee := by
  have level := congestion.multiplier_bounds
  have share := percent_le (Nat.min_le_right priority Message.maxPriority)
  unfold scalePriorityFee
  generalize percent (min priority Message.maxPriority) Message.maxPriority = percentage at share ⊢
  have scaled : base * congestion.multiplier ≤ base * 3 := Nat.mul_le_mul_left _ level.2
  have total : base * congestion.multiplier * (100 + percentage) ≤ base * 3 * 200 :=
    Nat.mul_le_mul scaled (by omega)
  have kept : base * 1 * 100 ≤ base * congestion.multiplier * (100 + percentage) :=
    Nat.mul_le_mul (Nat.mul_le_mul_left _ level.1) (by omega)
  have sum : checkedAdd u128Size 100 percentage = some (100 + percentage) :=
    checkedAdd_of_lt (by rw [u128Size]; omega)
  have congested : checkedMul u128Size base congestion.multiplier =
      some (base * congestion.multiplier) := checkedMul_of_lt (by rw [u128Size]; omega)
  have product : checkedMul u128Size (base * congestion.multiplier) (100 + percentage) =
      some (base * congestion.multiplier * (100 + percentage)) :=
    checkedMul_of_lt (by rw [u128Size]; omega)
  simp only [sum, congested, product, Option.bind_eq_bind, Option.bind_some, Option.pure_def]
  exact ⟨_, rfl, by omega, Nat.min_le_right _ _⟩

end Bulkmail.Ethereum
