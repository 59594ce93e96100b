import Bulkmail.Ethereum.FeeSystem

/-! # Fees stay in range

A quoted fee lies between the initial estimate and the cap, and a message's fee is
bumped at most twice.  What is confirmed is blended into the estimate, so the estimate
never falls below its initial value and never rises above the cap bumped twice, and all
of the arithmetic stays far below `2 ^ 128`.
-/

namespace Bulkmail.Ethereum

open Library Sender

/-- The cap, bumped twice. -/
def highestPriorityFee : ℕ := 144_000_000_000

def InRange (priorityFee : ℕ) : Prop :=
  initialPriorityFee ≤ priorityFee ∧ priorityFee ≤ highestPriorityFee

namespace EthFeeParams

/-- What `count` bumps can make of a quoted fee. -/
structure Within (fee : EthFeeParams) (count : ℕ) : Prop where
  base : fee.baseFee = initialBaseFee
  floor : initialPriorityFee ≤ fee.priorityFee
  ceiling : fee.priorityFee * 5 ^ count ≤ maxPriorityFee * 6 ^ count
  few : count ≤ 2

variable {fee bumped : EthFeeParams} {count : ℕ}

theorem Within.inRange (within : fee.Within count) : InRange fee.priorityFee := by
  obtain ⟨-, floor, ceiling, few⟩ := within
  refine ⟨floor, ?_⟩
  rw [maxPriorityFee] at ceiling
  rw [highestPriorityFee]
  interval_cases count <;> omega

end EthFeeParams

open EthFeeParams

variable {fee bumped : EthFeeParams} {count : ℕ}

theorem bumpFee_of_inRange (inRange : InRange fee.priorityFee) :
    bumpFee fee =
      some { fee with priorityFee := fee.priorityFee + fee.priorityFee * 20 / 100 } := by
  obtain ⟨-, small⟩ := inRange
  rw [highestPriorityFee] at small
  have scaled : checkedMul u128Size fee.priorityFee gasPriceIncreasePercent =
      some (fee.priorityFee * 20) :=
    checkedMul_of_lt (by rw [u128Size, gasPriceIncreasePercent]; omega)
  have sum : checkedAdd u128Size fee.priorityFee (fee.priorityFee * 20 / 100) =
      some (fee.priorityFee + fee.priorityFee * 20 / 100) :=
    checkedAdd_of_lt (by rw [u128Size]; omega)
  simp [bumpFee, bumpByPercent, scaled, sum]

theorem within_bumpFee (within : fee.Within count) (fewer : count < 2)
    (raised : bumpFee fee = some bumped) : bumped.Within (count + 1) := by
  rw [bumpFee_of_inRange within.inRange] at raised
  cases raised
  refine ⟨within.base, within.floor.trans (Nat.le_add_right _ _), ?_, fewer⟩
  have fifth : (fee.priorityFee + fee.priorityFee * 20 / 100) * 5 ≤ fee.priorityFee * 6 := by omega
  calc (fee.priorityFee + fee.priorityFee * 20 / 100) * 5 ^ (count + 1)
      = (fee.priorityFee + fee.priorityFee * 20 / 100) * 5 * 5 ^ count := by ring
    _ ≤ fee.priorityFee * 6 * 5 ^ count := Nat.mul_le_mul_right _ fifth
    _ = fee.priorityFee * 5 ^ count * 6 := by ring
    _ ≤ maxPriorityFee * 6 ^ count * 6 := Nat.mul_le_mul_right _ within.ceiling
    _ = maxPriorityFee * 6 ^ (count + 1) := by ring

theorem buildTransaction_of_within (chainId : ℕ) (msg : Message) (nonce : ℕ)
    (within : fee.Within count) :
    ∃ tx, buildTransaction chainId msg fee nonce = some tx ∧
      tx.maxPriorityFeePerGas = fee.priorityFee ∧
      tx.maxFeePerGas = initialBaseFee + fee.priorityFee := by
  have small := within.inRange.2
  have sum : checkedAdd u128Size initialBaseFee fee.priorityFee =
      some (initialBaseFee + fee.priorityFee) := by
    refine checkedAdd_of_lt ?_
    rw [u128Size, initialBaseFee]
    rw [highestPriorityFee] at small
    omega
  simp [buildTransaction, within.base, sum]

/-! ## The fees of the tasks -/

namespace EthTask

variable {chainId nowMs : ℕ} {nonces nonces' : NonceState} {task next : EthTask}
variable {answer : EthAnswer} {within : EthFeeParams → ℕ → Prop}

/-- The fee a task works with, and how often it has been bumped. -/
def Fees (within : EthFeeParams → ℕ → Prop) (task : EthTask) : Prop :=
  match task.phase with
  | .iterating _ fee _ count | .sending _ fee _ count => within fee count
  | .confirming pending | .retrying _ pending => within pending.fee pending.replacementCount
  | _ => True

theorem fees_enterSend (fees : task.Fees within) : (task.enterSend chainId).Fees within := by
  cases enterSend_eq chainId task with
  | inl entered =>
      rw [entered]
      exact fees
  | inr panics =>
      rw [panics]
      trivial

theorem fees_resumed_sending {msg : Message} {fee : EthFeeParams} {nonce count : ℕ}
    {result : Except Error (SendOutcome TxHash)} {phase : EthPhase}
    (fees : within fee count)
    (resumed : Phase.Resumed nowMs (.sending msg fee nonce count) (.outcome result) phase) :
    Fees within ⟨phase, .entry⟩ := by
  apply resumed.after_sending
  · exact fun _ _ => trivial
  · exact fun _ => fees
  · exact fun _ => fees

/-- A task's fee changes only where it is quoted and where it is bumped. -/
theorem fees_advanced (counted : task.WellCounted) (fees : task.Fees within)
    (unpriced : ∀ result, answer ≠ .fee result)
    (bumps : ∀ msg pending call fee, answer = .ready → task = ⟨.retrying msg pending, call⟩ →
      within pending.fee pending.replacementCount → bumpFee pending.fee = some fee →
      within fee (pending.replacementCount + 1))
    (advanced : Advanced chainId nowMs nonces task answer next nonces') : next.Fees within := by
  cases advanced with
  | start spec | draw _ spec | release spec | add spec => cases spec <;> trivial
  | drawPanic | bumpPanic | confirm => trivial
  | iterate spec =>
      apply fees_enterSend
      cases spec with
      | loopPanic | loopExpired => trivial
      | sent => exact fees
  | strategyReturns => exact absurd rfl (counted.call _)
  | strategyReleases guard => exact (not_strategyReleases counted guard).elim
  | resubmit raised => exact bumps _ _ _ _ rfl rfl fees raised
  | price => exact absurd rfl (unpriced _)
  | broadcast | register | watch => exact fees
  | sendError spec | registerError spec | timedOut spec | receiptCame spec =>
      exact fees_resumed_sending fees spec

end EthTask

/-! ## The invariant -/

def FeeUpdate.used : FeeUpdate → Option ℕ
  | .recording usedPriorityFee | .blending usedPriorityFee => some usedPriorityFee
  | .done => none

namespace FeeSystem

open EthTask

variable {s s' : FeeSystem} {event : FeeEvent}

structure Sound (s : FeeSystem) : Prop where
  counted : ∀ task ∈ s.system.tasks, task.WellCounted
  fees : ∀ task ∈ s.system.tasks, task.Fees Within
  estimate : InRange s.gas.priorityFee
  read : ∀ i, ∀ base ∈ s.basePriorityFee i, InRange base
  used : ∀ update ∈ s.updates, ∀ priorityFee ∈ update.used, InRange priorityFee

theorem sound_new (chainId currentNonce : ℕ) : Sound (new chainId currentNonce) where
  counted := by simp [new, System.new]
  fees := by simp [new, System.new]
  estimate := by simp [new, GasPriceManager.new, InRange, initialPriorityFee, highestPriorityFee]
  read := by simp [new]
  used := by simp [new]

/-- The counts leave room for one more bump wherever a transaction is retried. -/
theorem within_bumped {task : EthTask} {bumped : EthFeeParams} (counted : task.WellCounted)
    (msg : Message) (pending : PendingTransaction EthFeeParams ℕ TxHash) (call : EthCall)
    (same : task = ⟨.retrying msg pending, call⟩)
    (within : pending.fee.Within pending.replacementCount)
    (raised : bumpFee pending.fee = some bumped) :
    bumped.Within (pending.replacementCount + 1) := by
  subst same
  obtain ⟨fewer, -, fewerReplacements⟩ := counted.phase
  rw [Message.maxRetries] at fewer
  exact within_bumpFee within (by omega) raised

/-- A quote from an estimate in range succeeds, above the initial fee and under the cap. -/
theorem scalePriorityFee_of_inRange {base : ℕ} (inRange : InRange base)
    (congestion : CongestionLevel) (priority : ℕ) :
    ∃ fee, GasPriceManager.scalePriorityFee base congestion priority = some fee ∧
      initialPriorityFee ≤ fee ∧ fee ≤ maxPriorityFee := by
  obtain ⟨floor, ceiling⟩ := inRange
  have sane : base < 2 ^ 100 := by
    rw [highestPriorityFee] at ceiling
    omega
  obtain ⟨fee, computed, above, below⟩ :=
    GasPriceManager.scalePriorityFee_spec sane congestion priority
  refine ⟨fee, computed, ?_, below⟩
  have under : initialPriorityFee ≤ maxPriorityFee := by decide
  exact (le_min floor under).trans above

theorem quoted_bounds {base priority priorityFee : ℕ} {congestion : CongestionLevel}
    (inRange : InRange base)
    (scaled : GasPriceManager.scalePriorityFee base congestion priority = some priorityFee) :
    initialPriorityFee ≤ priorityFee ∧ priorityFee ≤ maxPriorityFee := by
  obtain ⟨fee, computed, bounds⟩ := scalePriorityFee_of_inRange inRange congestion priority
  obtain rfl := Option.some.inj (scaled.symm.trans computed)
  exact bounds

theorem within_quoted {base priority priorityFee : ℕ} {congestion : CongestionLevel}
    (inRange : InRange base)
    (scaled : GasPriceManager.scalePriorityFee base congestion priority = some priorityFee) :
    Within ⟨initialBaseFee, priorityFee⟩ 0 := by
  obtain ⟨above, below⟩ := quoted_bounds inRange scaled
  exact ⟨rfl, above, by simpa using below, Nat.zero_le _⟩

theorem counted_step (sound : Sound s) (stepped : Stepped s event s') :
    ∀ task ∈ s'.system.tasks, task.WellCounted := by
  refine tasks_step stepped sound.counted wellCounted_start wellCounted_panicked ?_ ?_
  · intro i nowMs answer task next nonces _ found _ advanced
    exact wellCounted_advanced (sound.counted task (List.mem_of_getElem? found)) advanced
  · intro i base congestion priority priorityFee _ _ msg nonce
    exact ⟨Nat.zero_le _, fun _ same => by cases same⟩

theorem fees_step (sound : Sound s) (stepped : Stepped s event s') :
    ∀ task ∈ s'.system.tasks, task.Fees Within := by
  refine tasks_step stepped sound.fees (fun _ => trivial) trivial ?_ ?_
  · intro i nowMs answer task next nonces _ found unpriced advanced
    have member := List.mem_of_getElem? found
    have counted := sound.counted task member
    exact fees_advanced counted (sound.fees task member) unpriced
      (fun msg pending call bumped _ => within_bumped counted msg pending call) advanced
  · intro i base congestion priority priorityFee known scaled msg nonce
    exact within_quoted (sound.read i base known) scaled

theorem inRange_blend {a b : ℕ} (left : InRange a) (right : InRange b) : InRange ((a + b) / 2) := by
  unfold InRange at *
  omega

theorem inRange_opensUpdate {task : EthTask} (fees : task.Fees Within) :
    ∀ update ∈ task.opensUpdate, ∀ priorityFee ∈ update.used, InRange priorityFee := by
  obtain ⟨phase, call⟩ := task
  cases phase with
  | confirming pending =>
      intro update member priorityFee used
      obtain rfl := List.mem_singleton.mp member
      obtain rfl := Option.some.inj used
      exact Within.inRange fees
  | starting | nextToken | feeParams | iterating | sending | retrying | releasing | adding
  | finished => simp [opensUpdate]

theorem used_set {updates : List FeeUpdate} {j : ℕ} {before after : FeeUpdate}
    (used : ∀ update ∈ updates, ∀ priorityFee ∈ update.used, InRange priorityFee)
    (found : updates[j]? = some before) (fewer : ∀ fee ∈ after.used, fee ∈ before.used) :
    ∀ update ∈ updates.set j after, ∀ priorityFee ∈ update.used, InRange priorityFee := by
  intro update member priorityFee paid
  cases List.mem_or_eq_of_mem_set member with
  | inl kept => exact used update kept priorityFee paid
  | inr here =>
      subst here
      exact used before (List.mem_of_getElem? found) priorityFee (fewer priorityFee paid)

theorem used_step (sound : Sound s) (stepped : Stepped s event s') :
    ∀ update ∈ s'.updates, ∀ priorityFee ∈ update.used, InRange priorityFee := by
  have fees := fees_step sound stepped
  cases stepped with
  | @task i nowMs answer task next nonces system unpriced found advanced same =>
      have there : next ∈ system.tasks := by
        rw [same]
        exact List.mem_set (List.getElem?_eq_some_iff.mp found).1 next
      intro update member
      cases List.mem_append.mp member with
      | inl before => exact sound.used update before
      | inr opened => exact inRange_opensUpdate (fees next there) update opened
  | records found => exact used_set sound.used found (fun _ same => same)
  | blends found => exact used_set sound.used found (by simp [FeeUpdate.used])
  | spawn | sync | readsEstimate | quotePanic | quoted => exact sound.used

theorem sound_step (sound : Sound s) (stepped : Stepped s event s') : Sound s' where
  counted := counted_step sound stepped
  fees := fees_step sound stepped
  estimate := by
    cases stepped with
    | blends found =>
        exact inRange_blend sound.estimate (sound.used _ (List.mem_of_getElem? found) _ rfl)
    | spawn | sync | task | readsEstimate | quotePanic | quoted | records => exact sound.estimate
  read := by
    cases stepped with
    | @readsEstimate i =>
        intro j base known
        rcases eq_or_ne j i with rfl | other
        · simp only [Function.update_self, Option.mem_some_iff] at known
          exact known ▸ sound.estimate
        · simp only [Function.update_of_ne other] at known
          exact sound.read j base known
    | spawn | sync | task | quotePanic | quoted | records | blends => exact sound.read
  used := used_step sound stepped

theorem Reachable.sound (reached : Reachable s) : Sound s := by
  obtain ⟨chainId, currentNonce, events, ran⟩ := reached
  exact runs_invariant (fun s event s' held stepped => sound_step held (step_spec stepped))
    (sound_new chainId currentNonce) ran

/-- The estimate and every submitted priority fee stay at or above the initial one, a bump
    is a strict increase, and quoting, blending, bumping and building never overflow. -/
theorem fee_arithmetic_in_range (reached : Reachable s) :
    initialPriorityFee ≤ s.gas.priorityFee ∧
    (∀ task ∈ s.system.tasks, ∀ msg fee nonce count,
      task.phase = .iterating msg fee nonce count ∨ task.phase = .sending msg fee nonce count →
      ∃ tx, buildTransaction s.system.chainId msg fee nonce = some tx ∧
        initialPriorityFee ≤ tx.maxPriorityFeePerGas) ∧
    (∀ task ∈ s.system.tasks, ∀ msg pending, task.phase = .retrying msg pending →
      ∃ fee, bumpFee pending.fee = some fee ∧ pending.fee.priorityFee < fee.priorityFee) ∧
    (∀ i, ∀ base ∈ s.basePriorityFee i, ∀ congestion priority,
      GasPriceManager.scalePriorityFee base congestion priority ≠ none) ∧
    ∀ update ∈ s.updates, ∀ used ∈ update.used, s.gas.blendPriorityFee used ≠ none := by
  have sound := reached.sound
  refine ⟨sound.estimate.1, ?_, ?_, ?_, ?_⟩
  · intro task member msg fee nonce count submitted
    have within : fee.Within count := by
      have fees := sound.fees task member
      obtain ⟨phase, call⟩ := task
      cases submitted with
      | inl same | inr same =>
          cases same
          exact fees
    obtain ⟨tx, built, paid, -⟩ := buildTransaction_of_within s.system.chainId msg nonce within
    exact ⟨tx, built, paid ▸ within.floor⟩
  · intro task member msg pending same
    have within : pending.fee.Within pending.replacementCount := by
      have fees := sound.fees task member
      obtain ⟨phase, call⟩ := task
      cases same
      exact fees
    refine ⟨_, bumpFee_of_inRange within.inRange, ?_⟩
    have floor := within.floor
    rw [initialPriorityFee] at floor
    change _ < pending.fee.priorityFee + pending.fee.priorityFee * 20 / 100
    omega
  · intro i base known congestion priority overflow
    obtain ⟨fee, computed, -⟩ :=
      scalePriorityFee_of_inRange (sound.read i base known) congestion priority
    cases overflow.symm.trans computed
  · intro update member used paid overflow
    have small := (sound.used update member used paid).2
    have estimate := sound.estimate.2
    rw [highestPriorityFee] at small estimate
    have sum : checkedAdd u128Size s.gas.priorityFee used = some (s.gas.priorityFee + used) :=
      checkedAdd_of_lt (by rw [u128Size]; omega)
    simp [GasPriceManager.blendPriorityFee, sum] at overflow

/-- A message is sent, replaced and confirmed while another one waits to be bumped. -/
theorem fee_arithmetic_in_range_after_replacement :
    let events := sends 0 sampleMessage ++ replaces 0 ++ confirms 0 0 nanosPerSec ++
      sends 1 sampleMessage ++ [.system (.task 1 0 (.watched false))]
    ∃ s, runs step (new 1 0) events = some s ∧ s.gas.priorityFee = 1_700_000_000 ∧
      initialPriorityFee ≤ s.gas.priorityFee ∧
      (∀ task ∈ s.system.tasks, ∀ msg fee nonce count,
        task.phase = .iterating msg fee nonce count ∨ task.phase = .sending msg fee nonce count →
        ∃ tx, buildTransaction s.system.chainId msg fee nonce = some tx ∧
          initialPriorityFee ≤ tx.maxPriorityFeePerGas) ∧
      (∀ task ∈ s.system.tasks, ∀ msg pending, task.phase = .retrying msg pending →
        ∃ fee, bumpFee pending.fee = some fee ∧ pending.fee.priorityFee < fee.priorityFee) ∧
      (∀ i, ∀ base ∈ s.basePriorityFee i, ∀ congestion priority,
        GasPriceManager.scalePriorityFee base congestion priority ≠ none) ∧
      ∀ update ∈ s.updates, ∀ used ∈ update.used, s.gas.blendPriorityFee used ≠ none := by
  intro events
  have shown : (runs step (new 1 0) events).map (·.gas.priorityFee) = some 1_700_000_000 := by
    decide +kernel
  obtain ⟨s, ran, estimate⟩ := Option.map_eq_some_iff.mp shown
  exact ⟨s, ran, estimate, fee_arithmetic_in_range ⟨1, 0, events, ran⟩⟩

end FeeSystem

end Bulkmail.Ethereum
