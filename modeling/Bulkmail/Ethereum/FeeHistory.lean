import Bulkmail.Ethereum.FeeBounds
import Bulkmail.Library.Recent

/-! # What the fee manager remembers

`update_on_confirmation` puts a confirmation time into a window of ten and blends the fee
that was paid into a moving average.  The two happen under different locks, so tasks may
do them in different orders.  A history beside the fee manager keeps everything that went
in: each reported confirmation goes in once, and a quote depends on little more than the
latest ones.  Last comes what moves a quote up.
-/

namespace Bulkmail.Ethereum

open Library Sender

structure FeeHistory where
  fees : FeeSystem
  /-- The confirmation times, as they were recorded. -/
  recorded : List ℕ
  /-- The fees, as they were blended into the estimate. -/
  blended : List ℕ
  /-- The fees of the transactions whose confirmation was reported. -/
  reported : List ℕ

def FeeUpdate.isRecording : FeeUpdate → Bool
  | .recording _ => true
  | _ => false

namespace FeeSystem

variable (s : FeeSystem)

def recordedBy : FeeEvent → List ℕ
  | .records _ confirmationTime => [confirmationTime]
  | _ => []

def blendedBy : FeeEvent → List ℕ
  | .blends j => (s.updates[j]?.bind FeeUpdate.used).toList
  | _ => []

end FeeSystem

namespace FeeHistory

def new (chainId currentNonce : ℕ) : FeeHistory := ⟨.new chainId currentNonce, [], [], []⟩

def step (h : FeeHistory) (event : FeeEvent) : Option FeeHistory :=
  (h.fees.step event).map fun fees =>
    { fees
      recorded := h.recorded ++ FeeSystem.recordedBy event
      blended := h.blended ++ h.fees.blendedBy event
      reported := h.reported ++
        (fees.updates.drop h.fees.updates.length).filterMap FeeUpdate.used }

def Reachable (h : FeeHistory) : Prop :=
  ∃ chainId currentNonce events, runs step (new chainId currentNonce) events = some h

variable {h h' : FeeHistory} {event : FeeEvent}

structure Kept (h : FeeHistory) : Prop where
  sound : h.fees.Sound
  window : h.fees.gas.confirmationTimes = h.recorded.rtake confirmationTimeWindow
  estimate : h.fees.gas.priorityFee = movingAverage initialPriorityFee h.blended
  once : (h.blended ++ h.fees.updates.filterMap FeeUpdate.used).Perm h.reported
  timed : h.recorded.length + h.fees.updates.countP FeeUpdate.isRecording = h.reported.length
  inRange : ∀ fee ∈ h.blended, InRange fee

theorem kept_new (chainId currentNonce : ℕ) : Kept (new chainId currentNonce) where
  sound := FeeSystem.sound_new chainId currentNonce
  window := by simp [new, FeeSystem.new, GasPriceManager.new]
  estimate := rfl
  once := by simp [new, FeeSystem.new]
  timed := by simp [new, FeeSystem.new]
  inRange := by simp [new]

/-- A step that leaves the fee manager and its callers alone. -/
theorem kept_of_quiet {fees : FeeSystem} (kept : Kept h) (sound : fees.Sound)
    (gas : fees.gas = h.fees.gas) (updates : fees.updates = h.fees.updates) :
    Kept { h with fees } where
  sound := sound
  window := by rw [gas, kept.window]
  estimate := by rw [gas, kept.estimate]
  once := by
    rw [updates]
    exact kept.once
  timed := by
    rw [updates]
    exact kept.timed
  inRange := kept.inRange

theorem countP_opensUpdate (task : EthTask) :
    task.opensUpdate.countP FeeUpdate.isRecording =
      (task.opensUpdate.filterMap FeeUpdate.used).length := by
  unfold EthTask.opensUpdate
  split <;> rfl

theorem kept_step (kept : Kept h) (stepped : h.step event = some h') : Kept h' := by
  obtain ⟨fees, moved, rfl⟩ := Option.map_eq_some_iff.mp stepped
  have spec := FeeSystem.step_spec moved
  have sound := FeeSystem.sound_step kept.sound spec
  have nothing : ∀ j update, (h.fees.updates.set j update).drop h.fees.updates.length = [] :=
    fun j update => List.drop_eq_nil_of_le (by rw [List.length_set])
  cases spec with
  | spawn | sync | readsEstimate | quotePanic | quoted =>
      simpa [FeeSystem.recordedBy, FeeSystem.blendedBy] using kept_of_quiet kept sound rfl rfl
  | @task i nowMs answer task next nonces system =>
      have fresh : (h.fees.updates ++ next.opensUpdate).drop h.fees.updates.length =
          next.opensUpdate := List.drop_left
      have counts := countP_opensUpdate next
      have once := kept.once.append_right (next.opensUpdate.filterMap FeeUpdate.used)
      have timed := kept.timed
      refine ⟨sound, ?_, ?_, ?_, ?_, ?_⟩
      · simpa [FeeSystem.recordedBy] using kept.window
      · simpa [FeeSystem.blendedBy] using kept.estimate
      · simpa [FeeSystem.blendedBy, fresh] using once
      · simp only [FeeSystem.recordedBy, fresh, List.append_nil, List.countP_append,
          List.length_append]
        omega
      · simpa [FeeSystem.blendedBy] using kept.inRange
  | @records j used confirmationTime found =>
      have moved := filterMap_set_perm FeeUpdate.used found (.blending used)
      have same := (List.perm_append_left_iff _).mp moved
      have counts := countP_set_add FeeUpdate.isRecording found (.blending used)
      have timed := kept.timed
      refine ⟨sound, ?_, ?_, ?_, ?_, ?_⟩
      · simp only [GasPriceManager.recordConfirmationTime, FeeSystem.recordedBy, kept.window]
        exact (rtake_concat _ _ _).symm
      · change h.fees.gas.priorityFee = _
        simpa [FeeSystem.blendedBy] using kept.estimate
      · simpa [FeeSystem.blendedBy, nothing] using (same.append_left h.blended).trans kept.once
      · simp [FeeSystem.recordedBy, FeeUpdate.isRecording, nothing] at counts ⊢
        omega
      · simpa [FeeSystem.blendedBy] using kept.inRange
  | @blends j used found =>
      have moved := filterMap_set_perm FeeUpdate.used found .done
      have counts := countP_set_add FeeUpdate.isRecording found .done
      have timed := kept.timed
      have paid : h.fees.blendedBy (.blends j) = [used] := by
        simp [FeeSystem.blendedBy, found, FeeUpdate.used]
      have within := kept.sound.used _ (List.mem_of_getElem? found) used rfl
      refine ⟨sound, ?_, ?_, ?_, ?_, ?_⟩
      · simpa [FeeSystem.recordedBy] using kept.window
      · rw [paid, movingAverage_append, ← kept.estimate]
        rfl
      · have once := (moved.append_left h.blended).trans kept.once
        simp only [nothing, paid, List.filterMap_nil, List.append_nil, List.append_assoc]
        exact once
      · simp [FeeSystem.recordedBy, FeeUpdate.isRecording, nothing] at counts ⊢
        omega
      · simpa [paid, or_imp, forall_and] using ⟨kept.inRange, within⟩

theorem Reachable.kept (reached : Reachable h) : Kept h := by
  obtain ⟨chainId, currentNonce, events, ran⟩ := reached
  exact runs_invariant (fun _ _ _ held stepped => kept_step held stepped)
    (kept_new chainId currentNonce) ran

/-- The window is the latest ten recorded times, the estimate the moving average of the
    blended fees, and every reported confirmation is recorded once and blended once or has
    still to be. -/
theorem confirmations_counted_once (reached : Reachable h) :
    h.fees.gas.confirmationTimes = h.recorded.rtake confirmationTimeWindow ∧
    h.fees.gas.priorityFee = movingAverage initialPriorityFee h.blended ∧
    (h.blended ++ h.fees.updates.filterMap FeeUpdate.used).Perm h.reported ∧
    h.recorded.length + h.fees.updates.countP FeeUpdate.isRecording = h.reported.length :=
  ⟨reached.kept.window, reached.kept.estimate, reached.kept.once, reached.kept.timed⟩

/-- Two confirmations are reported; the second is recorded before the first is blended, and
    not yet blended itself. -/
theorem confirmations_counted_once_in_between :
    let reports (i : ℕ) : List FeeEvent := [.system (.task i 0 (.watched true)),
      .system (.task i 0 (.receipt (.ok (some true))))]
    let events := FeeSystem.sends 0 sampleMessage ++ FeeSystem.sends 1 sampleMessage ++ reports 0 ++
      reports 1 ++ [.records 0 nanosPerSec, .records 1 0, .blends 0]
    ∃ h, runs step (new 1 0) events = some h ∧
      (h.recorded, h.blended, h.reported) =
        ([nanosPerSec, 0], [2_000_000_000], [2_000_000_000, 2_000_000_000]) ∧
      h.fees.gas.confirmationTimes = h.recorded.rtake confirmationTimeWindow ∧
      h.fees.gas.priorityFee = movingAverage initialPriorityFee h.blended ∧
      (h.blended ++ h.fees.updates.filterMap FeeUpdate.used).Perm h.reported ∧
      h.recorded.length + h.fees.updates.countP FeeUpdate.isRecording = h.reported.length := by
  intro reports events
  have shown : (runs step (new 1 0) events).map (fun h => (h.recorded, h.blended, h.reported)) =
      some ([nanosPerSec, 0], [2_000_000_000], [2_000_000_000, 2_000_000_000]) := by decide +kernel
  obtain ⟨h, ran, now⟩ := Option.map_eq_some_iff.mp shown
  exact ⟨h, ran, now, confirmations_counted_once ⟨1, 0, events, ran⟩⟩

/-! ## Quotes -/

theorem scalePriorityFee_eq {base priority fee : ℕ} {congestion : CongestionLevel}
    (scaled : GasPriceManager.scalePriorityFee base congestion priority = some fee) :
    fee = min (base * congestion.multiplier *
      (100 + percent (min priority Message.maxPriority) Message.maxPriority) / 100)
        maxPriorityFee := by
  obtain ⟨share, summed, rest⟩ := Option.bind_eq_some_iff.mp scaled
  obtain ⟨congested, scaledUp, rest⟩ := Option.bind_eq_some_iff.mp rest
  obtain ⟨total, multiplied, done⟩ := Option.bind_eq_some_iff.mp rest
  obtain ⟨-, rfl⟩ := checkedAdd_eq_some_iff.mp summed
  obtain ⟨-, same⟩ := Option.ite_none_right_eq_some.mp scaledUp
  cases same
  obtain ⟨-, same⟩ := Option.ite_none_right_eq_some.mp multiplied
  cases same
  exact (Option.some.inj done).symm

/-- A quote moves at most six times as far as the estimate. -/
theorem scalePriorityFee_le {base base' k priority fee fee' : ℕ} {congestion : CongestionLevel}
    (near : base ≤ base' + k)
    (scaled : GasPriceManager.scalePriorityFee base congestion priority = some fee)
    (scaled' : GasPriceManager.scalePriorityFee base' congestion priority = some fee') :
    fee ≤ fee' + 6 * k := by
  rw [scalePriorityFee_eq scaled, scalePriorityFee_eq scaled']
  have level := congestion.multiplier_bounds.2
  have share := percent_le (Nat.min_le_right priority Message.maxPriority)
  generalize percent (min priority Message.maxPriority) Message.maxPriority = percentage at share ⊢
  have apart : k * congestion.multiplier * (100 + percentage) ≤ k * 3 * 200 :=
    Nat.mul_le_mul (Nat.mul_le_mul_left _ level) (by omega)
  have whole : base * congestion.multiplier * (100 + percentage) ≤
      base' * congestion.multiplier * (100 + percentage) + k * 3 * 200 :=
    calc base * congestion.multiplier * (100 + percentage)
        ≤ (base' + k) * congestion.multiplier * (100 + percentage) :=
          Nat.mul_le_mul_right _ (Nat.mul_le_mul_right _ near)
      _ = base' * congestion.multiplier * (100 + percentage) +
          k * congestion.multiplier * (100 + percentage) := by ring
      _ ≤ _ := Nat.add_le_add_left apart _
  omega

/-- How far apart two estimates can be. -/
def estimateRange : ℕ := highestPriorityFee - initialPriorityFee

/-- Estimates that have blended the same latest fees are close. -/
theorem estimates_near {old old' fees : List ℕ} (kept : Kept h) (kept' : Kept h')
    (blended : h.blended = old ++ fees) (blended' : h'.blended = old' ++ fees) :
    h.fees.gas.priorityFee ≤ h'.fees.gas.priorityFee + (estimateRange / 2 ^ fees.length + 1) := by
  have initial : InRange initialPriorityFee := ⟨le_rfl, by decide⟩
  have before : InRange (movingAverage initialPriorityFee old) :=
    movingAverage_mem initial fun fee member =>
      kept.inRange fee (blended ▸ List.mem_append_left _ member)
  have before' : InRange (movingAverage initialPriorityFee old') :=
    movingAverage_mem initial fun fee member =>
      kept'.inRange fee (blended' ▸ List.mem_append_left _ member)
  rw [kept.estimate, kept'.estimate, blended, blended', movingAverage_append, movingAverage_append]
  apply movingAverage_le
  have spread : estimateRange < (estimateRange / 2 ^ fees.length + 1) * 2 ^ fees.length := by
    rw [Nat.mul_comm]
    exact Nat.lt_mul_div_succ _ (Nat.two_pow_pos _)
  obtain ⟨-, ceiling⟩ := before
  obtain ⟨floor, -⟩ := before'
  generalize movingAverage initialPriorityFee old = start at ceiling ⊢
  generalize movingAverage initialPriorityFee old' = start' at floor ⊢
  have range : start ≤ start' + estimateRange := by
    rw [estimateRange]
    omega
  omega

/-- What `calculate_priority_fee` comes to when nothing gets in between. -/
def quote (h : FeeHistory) (priority : ℕ) : Option ℕ :=
  h.fees.gas.calculatePriorityFee h.fees.gas.priorityFee priority

theorem quote_eq_none_iff (kept : Kept h) (priority : ℕ) :
    h.quote priority = none ↔
      GasPriceManager.analyzeNetworkCongestion (h.recorded.rtake confirmationTimeWindow) =
        none := by
  rw [quote, GasPriceManager.calculatePriorityFee, kept.window]
  cases GasPriceManager.analyzeNetworkCongestion (h.recorded.rtake confirmationTimeWindow) with
  | none => simp
  | some congestion =>
      obtain ⟨fee, scaled, -⟩ :=
        FeeSystem.scalePriorityFee_of_inRange kept.sound.estimate congestion priority
      simp [scaled]

theorem quote_le {old old' fees : List ℕ} {priority fee fee' : ℕ} (kept : Kept h) (kept' : Kept h')
    (times : h.recorded.rtake confirmationTimeWindow = h'.recorded.rtake confirmationTimeWindow)
    (blended : h.blended = old ++ fees) (blended' : h'.blended = old' ++ fees)
    (quoted : h.quote priority = some fee) (quoted' : h'.quote priority = some fee') :
    fee ≤ fee' + 6 * (estimateRange / 2 ^ fees.length + 1) := by
  rw [quote, GasPriceManager.calculatePriorityFee, kept.window] at quoted
  rw [quote, GasPriceManager.calculatePriorityFee, kept'.window, ← times] at quoted'
  obtain ⟨congestion, level, scaled⟩ := Option.bind_eq_some_iff.mp quoted
  obtain ⟨congestion', level', scaled'⟩ := Option.bind_eq_some_iff.mp quoted'
  cases level.symm.trans level'
  exact scalePriorityFee_le (estimates_near kept kept' blended blended') scaled scaled'

/-- Two fee managers with the same latest ten times and the same latest fees quote the same
    up to six wei and a rest that every one of these fees halves, whatever came before. -/
theorem quotes_forget {old old' fees : List ℕ} (reached : Reachable h) (reached' : Reachable h')
    (times : h.recorded.rtake confirmationTimeWindow = h'.recorded.rtake confirmationTimeWindow)
    (blended : h.blended = old ++ fees) (blended' : h'.blended = old' ++ fees) (priority : ℕ) :
    (h.quote priority = none ↔ h'.quote priority = none) ∧
    ∀ fee fee', h.quote priority = some fee → h'.quote priority = some fee' →
      fee ≤ fee' + 6 * (estimateRange / 2 ^ fees.length + 1) ∧
      fee' ≤ fee + 6 * (estimateRange / 2 ^ fees.length + 1) := by
  have kept := reached.kept
  have kept' := reached'.kept
  constructor
  · rw [quote_eq_none_iff kept, quote_eq_none_iff kept', times]
  · intro fee fee' quoted quoted'
    exact ⟨quote_le kept kept' times blended blended' quoted quoted',
      quote_le kept' kept times.symm blended' blended quoted' quoted⟩

/-- The first of two messages is replaced in one history and not in the other. -/
theorem quotes_forget_replacement :
    let both := FeeSystem.sends 0 sampleMessage ++ FeeSystem.sends 1 sampleMessage
    let confirm := FeeSystem.confirms 0 0 0 ++ FeeSystem.confirms 1 1 0
    ∃ h h', runs step (new 1 0) (both ++ confirm) = some h ∧
      runs step (new 1 0) (both ++ FeeSystem.replaces 0 ++ confirm) = some h' ∧
      (h.quote 0, h'.quote 0) = (some 1_750_000_000, some 1_850_000_000) ∧
      ∀ fee fee', h.quote 0 = some fee → h'.quote 0 = some fee' →
        fee ≤ fee' + 6 * (estimateRange / 2 ^ 1 + 1) ∧
        fee' ≤ fee + 6 * (estimateRange / 2 ^ 1 + 1) := by
  intro both confirm
  have shown : (runs step (new 1 0) (both ++ confirm)).map
      (fun h => (h.recorded, h.blended, h.quote 0)) =
        some ([0, 0], [2_000_000_000, 2_000_000_000], some 1_750_000_000) := by decide +kernel
  have shown' : (runs step (new 1 0) (both ++ FeeSystem.replaces 0 ++ confirm)).map
      (fun h => (h.recorded, h.blended, h.quote 0)) =
        some ([0, 0], [2_400_000_000, 2_000_000_000], some 1_850_000_000) := by decide +kernel
  obtain ⟨h, ran, now⟩ := Option.map_eq_some_iff.mp shown
  obtain ⟨h', ran', now'⟩ := Option.map_eq_some_iff.mp shown'
  simp only [Prod.mk.injEq] at now now'
  obtain ⟨recorded, blended, quoted⟩ := now
  obtain ⟨recorded', blended', quoted'⟩ := now'
  have split : h.blended = [2_000_000_000] ++ [2_000_000_000] := blended
  have split' : h'.blended = [2_400_000_000] ++ [2_000_000_000] := blended'
  have forgets :=
    quotes_forget ⟨1, 0, _, ran⟩ ⟨1, 0, _, ran'⟩ (by rw [recorded, recorded']) split split' 0
  exact ⟨h, h', ran, ran', by rw [quoted, quoted'], forgets.2⟩

end FeeHistory

/-! ## What raises a quote -/

/-- The share of the highest priority, in percent.  Three times the product of two rounded
    numbers falls just short of an integer. -/
def priorityShare (priority : ℕ) : ℕ :=
  if priority = 29 ∨ priority = 57 ∨ priority = 58 then priority - 1 else priority

theorem percent_of_maxPriority {p : ℕ} (bounded : p ≤ Message.maxPriority) :
    percent p Message.maxPriority = priorityShare p := by
  have table : ∀ p < 101, percent p Message.maxPriority = priorityShare p := by decide +kernel
  exact table p (Nat.lt_succ_of_le bounded)

theorem percent_mono {p p' : ℕ} (le : p ≤ p') (bounded : p' ≤ Message.maxPriority) :
    percent p Message.maxPriority ≤ percent p' Message.maxPriority := by
  rw [percent_of_maxPriority (le.trans bounded), percent_of_maxPriority bounded]
  unfold priorityShare
  split <;> split <;> omega

theorem congestion_mono {times times' : List ℕ} {congestion congestion' : CongestionLevel}
    (slower : List.Forall₂ (· ≤ ·) times times')
    (level : GasPriceManager.analyzeNetworkCongestion times = some congestion)
    (level' : GasPriceManager.analyzeNetworkCongestion times' = some congestion') :
    congestion.multiplier ≤ congestion'.multiplier := by
  have averages : times.sum / times.length ≤ times'.sum / times'.length := by
    rw [slower.length_eq]
    exact Nat.div_le_div_right slower.sum_le_sum
  cases slower with
  | nil =>
      cases level.symm.trans level'
      exact le_rfl
  | cons first others =>
      simp only [GasPriceManager.analyzeNetworkCongestion, reduceCtorEq, if_false,
        Option.ite_none_right_eq_some] at level level'
      obtain ⟨-, level⟩ := level
      obtain ⟨-, level'⟩ := level'
      split at level
      · cases level
        exact congestion'.multiplier_bounds.1
      · rename_i slow
        have slow' := fun fast' => slow (averages.trans_lt fast')
        rw [if_neg slow'] at level'
        split at level
        · cases level
          split at level' <;> cases level' <;> decide
        · rename_i slowest
          have slowest' := fun fast' => slowest (averages.trans_lt fast')
          rw [if_neg slowest'] at level'
          cases level.symm.trans level'
          exact le_rfl

namespace GasPriceManager

variable {gas gas' : GasPriceManager}

/-- A higher estimate, slower confirmations and a higher priority never lower a quote, although
    it adds one percent too little at three of the priorities. -/
theorem quotes_monotone {priority priority' fee fee' : ℕ}
    (estimates : gas.priorityFee ≤ gas'.priorityFee)
    (slower : List.Forall₂ (· ≤ ·) gas.confirmationTimes gas'.confirmationTimes)
    (priorities : priority ≤ priority')
    (quoted : gas.calculatePriorityFee gas.priorityFee priority = some fee)
    (quoted' : gas'.calculatePriorityFee gas'.priorityFee priority' = some fee') :
    fee ≤ fee' ∧ ∃ congestion, analyzeNetworkCongestion gas.confirmationTimes = some congestion ∧
      fee = min (gas.priorityFee * congestion.multiplier *
        (100 + priorityShare (min priority Message.maxPriority)) / 100) maxPriorityFee := by
  obtain ⟨congestion, level, scaled⟩ := Option.bind_eq_some_iff.mp quoted
  obtain ⟨congestion', level', scaled'⟩ := Option.bind_eq_some_iff.mp quoted'
  have multipliers := congestion_mono slower level level'
  have shares := percent_mono (min_le_min_right Message.maxPriority priorities) (min_le_right _ _)
  have exact_ := FeeHistory.scalePriorityFee_eq scaled
  constructor
  · rw [exact_, FeeHistory.scalePriorityFee_eq scaled']
    apply min_le_min_right
    apply Nat.div_le_div_right
    exact Nat.mul_le_mul (Nat.mul_le_mul estimates multipliers) (Nat.add_le_add_left shares _)
  · rw [percent_of_maxPriority (min_le_right _ _)] at exact_
    exact ⟨congestion, level, exact_⟩

/-- Priorities of 29 and 57 are raised by 28 and 56 percent. -/
theorem quotes_monotone_at_slow_confirmations :
    let gas : GasPriceManager := ⟨[10 * nanosPerSec], 1_000_000_000⟩
    let gas' : GasPriceManager := ⟨[70 * nanosPerSec], 2_000_000_000⟩
    gas.calculatePriorityFee gas.priorityFee 29 = some 1_280_000_000 ∧
      gas'.calculatePriorityFee gas'.priorityFee 57 = some 9_360_000_000 ∧
      1_280_000_000 ≤ 9_360_000_000 ∧
      ∃ congestion, analyzeNetworkCongestion gas.confirmationTimes = some congestion ∧
        1_280_000_000 = min (gas.priorityFee * congestion.multiplier *
          (100 + priorityShare (min 29 Message.maxPriority)) / 100) maxPriorityFee := by
  intro gas gas'
  have quoted : gas.calculatePriorityFee gas.priorityFee 29 = some 1_280_000_000 := by
    decide +kernel
  have quoted' : gas'.calculatePriorityFee gas'.priorityFee 57 = some 9_360_000_000 := by
    decide +kernel
  exact ⟨quoted, quoted', quotes_monotone (by decide) (by simp [gas, gas', nanosPerSec])
    (by decide) quoted quoted'⟩

end GasPriceManager

end Bulkmail.Ethereum
