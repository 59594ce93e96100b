import Bulkmail.Sender.Message

/-! # The effective priority

`effective_priority` is a sum of the base priority, the retries, the age in blocks and a
boost that grows in steps as the deadline comes closer; expired messages have none.  Over
the integers that is a plain formula.  The code computes it in `u32` with a truncating cast
of the age, and finds expiry twice by adding a `u32` deadline to a `u64` time, so it follows
the formula exactly as far as these sums stay in range.
-/

namespace Bulkmail.Sender.Message

open Library

/-! ## The formula over the integers -/

/-- The boost with this many whole blocks left. -/
def boostAt (remainingBlocks : ℕ) : ℕ :=
  if remainingBlocks < deadlineBoostNearBlocks then maxPriority
  else if remainingBlocks < deadlineBoostFarBlocks then
    maxPriority - (maxPriority - maxPriority / 3) * (remainingBlocks - deadlineBoostNearBlocks) /
      (deadlineBoostFarBlocks - deadlineBoostNearBlocks)
  else 0

/-- The deadline, if there is one, has come. -/
def Expired (msg : Message) (nowMs : ℕ) : Prop :=
  ∃ deadlineMs ∈ msg.deadlineMs, msg.createdAtMs + deadlineMs ≤ nowMs

instance (msg : Message) (nowMs : ℕ) : Decidable (msg.Expired nowMs) :=
  inferInstanceAs (Decidable (∃ deadlineMs ∈ msg.deadlineMs, _))

/-- The boost of a message that has not expired. -/
def boost (msg : Message) (nowMs : ℕ) : ℕ :=
  msg.deadlineMs.elim 0 fun deadlineMs =>
    boostAt ((msg.createdAtMs + deadlineMs - nowMs) / blockTimeMs)

def ageBlocks (msg : Message) (nowMs : ℕ) : ℕ := (nowMs - msg.createdAtMs) / blockTimeMs

def exactPriority (msg : Message) (nowMs : ℕ) : ℕ :=
  msg.priority + msg.retryCount + msg.ageBlocks nowMs + msg.boost nowMs

/-- The absolute deadline is a `u64`. -/
def DeadlineFits (msg : Message) : Prop :=
  ∀ deadlineMs ∈ msg.deadlineMs, msg.createdAtMs + deadlineMs < u64Size

instance (msg : Message) : Decidable msg.DeadlineFits :=
  inferInstanceAs (Decidable (∀ deadlineMs ∈ msg.deadlineMs, _))

variable {msg : Message} {nowMs laterMs : ℕ}

theorem boostAt_le (blocks : ℕ) : boostAt blocks ≤ maxPriority := by
  unfold boostAt maxPriority
  split
  · exact le_rfl
  · split
    · exact Nat.sub_le _ _
    · exact Nat.zero_le _

/-- The fewer blocks are left, the higher the boost, across both jumps. -/
theorem boostAt_antitone {fewer more : ℕ} (le : fewer ≤ more) : boostAt more ≤ boostAt fewer := by
  unfold boostAt maxPriority deadlineBoostNearBlocks deadlineBoostFarBlocks
  split
  · rw [if_pos (by omega)]
  · split
    · split
      · omega
      · rw [if_pos (by omega)]
        omega
    · exact Nat.zero_le _

theorem boost_le (msg : Message) (nowMs : ℕ) : msg.boost nowMs ≤ maxPriority := by
  unfold boost
  cases msg.deadlineMs with
  | none => exact Nat.zero_le _
  | some deadlineMs => exact boostAt_le _

theorem boost_mono (msg : Message) (le : nowMs ≤ laterMs) :
    msg.boost nowMs ≤ msg.boost laterMs := by
  unfold boost
  cases msg.deadlineMs with
  | none => exact le_rfl
  | some deadlineMs => exact boostAt_antitone (Nat.div_le_div_right (by omega))

/-- A message with a later deadline, or with none, is boosted no more. -/
theorem boost_later {deadline : Option ℕ}
    (later : ∀ late ∈ deadline, ∃ early ∈ msg.deadlineMs, early ≤ late) :
    boost { msg with deadlineMs := deadline } nowMs ≤ msg.boost nowMs := by
  unfold boost
  cases deadline with
  | none => exact Nat.zero_le _
  | some late =>
      obtain ⟨early, given, le⟩ := later late rfl
      rw [Option.mem_def] at given
      simp only [given, Option.elim_some]
      exact boostAt_antitone (Nat.div_le_div_right (by omega))

theorem ageBlocks_mono (msg : Message) (le : nowMs ≤ laterMs) :
    msg.ageBlocks nowMs ≤ msg.ageBlocks laterMs :=
  Nat.div_le_div_right (by omega)

theorem exactPriority_mono (msg : Message) (le : nowMs ≤ laterMs) :
    msg.exactPriority nowMs ≤ msg.exactPriority laterMs := by
  have aged := ageBlocks_mono msg le
  have boosted := boost_mono msg le
  unfold exactPriority
  omega

theorem exactPriority_later {deadline : Option ℕ}
    (later : ∀ late ∈ deadline, ∃ early ∈ msg.deadlineMs, early ≤ late) :
    exactPriority { msg with deadlineMs := deadline } nowMs ≤ msg.exactPriority nowMs :=
  Nat.add_le_add_left (boost_later later) _

theorem expired_mono (le : nowMs ≤ laterMs) (expired : msg.Expired nowMs) :
    msg.Expired laterMs := by
  obtain ⟨deadlineMs, given, passed⟩ := expired
  exact ⟨deadlineMs, given, passed.trans le⟩

/-! ## The code against the formula -/

theorem isExpired_eq (fits : msg.DeadlineFits) :
    msg.isExpired nowMs = some (decide (msg.Expired nowMs)) := by
  unfold isExpired
  cases given : msg.deadlineMs with
  | none => simp [Expired, given]
  | some deadlineMs => simp [Expired, given, checkedAdd_of_lt (fits deadlineMs given)]

theorem isExpired_eq_true_iff (fits : msg.DeadlineFits) :
    msg.isExpired nowMs = some true ↔ msg.Expired nowMs := by
  rw [isExpired_eq fits]
  simp

theorem isExpired_eq_false_iff (fits : msg.DeadlineFits) :
    msg.isExpired nowMs = some false ↔ ¬ msg.Expired nowMs := by
  rw [isExpired_eq fits]
  simp

theorem deadlineFits_of_isExpired {expired : Bool} (known : msg.isExpired nowMs = some expired) :
    msg.DeadlineFits := by
  intro deadlineMs given
  rw [Option.mem_def] at given
  rw [isExpired, given] at known
  obtain ⟨deadline, sum, -⟩ := Option.map_eq_some_iff.mp known
  exact (checkedAdd_eq_some_iff.mp sum).1

theorem deadlineFactor_of_expired (fits : msg.DeadlineFits) (expired : msg.Expired nowMs) :
    msg.deadlineFactor nowMs = some (some 0) := by
  obtain ⟨deadlineMs, given, passed⟩ := expired
  have sum := checkedAdd_of_lt (fits deadlineMs given)
  rw [Option.mem_def] at given
  simp only [deadlineFactor, given, sum, Option.map_some, if_pos passed]

/-- Before the deadline the factor is the boost, and never the sign of expiry. -/
theorem deadlineFactor_of_live (fits : msg.DeadlineFits) (live : ¬ msg.Expired nowMs) :
    ∃ factor, msg.deadlineFactor nowMs = some factor ∧ factor ≠ some 0 ∧
      factor.getD 0 = msg.boost nowMs := by
  unfold deadlineFactor boost
  cases given : msg.deadlineMs with
  | none => exact ⟨none, rfl, by simp, rfl⟩
  | some deadlineMs =>
      have ahead : ¬ msg.createdAtMs + deadlineMs ≤ nowMs :=
        fun passed => live ⟨deadlineMs, given, passed⟩
      simp only [checkedAdd_of_lt (fits deadlineMs given), Option.map_some, if_neg ahead,
        Option.elim_some, boostAt]
      split
      · exact ⟨_, rfl, by simp [maxPriority], rfl⟩
      · split
        · rename_i far near
          refine ⟨_, rfl, ?_, rfl⟩
          simp only [maxPriority, deadlineBoostFarBlocks, deadlineBoostNearBlocks, ne_eq,
            Option.some.injEq] at near ⊢
          omega
        · exact ⟨none, rfl, by simp, rfl⟩

theorem deadlineFactor_eq_zero_iff (fits : msg.DeadlineFits) :
    msg.deadlineFactor nowMs = some (some 0) ↔ msg.Expired nowMs := by
  constructor
  · intro zero
    by_contra live
    obtain ⟨factor, known, nonzero, -⟩ := deadlineFactor_of_live fits live
    rw [known] at zero
    exact nonzero (Option.some.inj zero)
  · exact deadlineFactor_of_expired fits

theorem effectivePriority_of_expired (fits : msg.DeadlineFits) (expired : msg.Expired nowMs) :
    msg.effectivePriority nowMs = some 0 := by
  simp only [effectivePriority, deadlineFactor_of_expired fits expired, Option.bind_eq_bind,
    Option.bind_some]
  rfl

/-- Before the deadline the priority is the checked sum, with the age cut to 32 bits. -/
theorem effectivePriority_of_live (fits : msg.DeadlineFits) (live : ¬ msg.Expired nowMs) :
    msg.effectivePriority nowMs =
      let sum := msg.priority + msg.retryCount + msg.ageBlocks nowMs % u32Size + msg.boost nowMs
      if sum < u32Size then some sum else none := by
  obtain ⟨factor, known, nonzero, amount⟩ := deadlineFactor_of_live fits live
  have age : msg.ageFactor nowMs = some (msg.ageBlocks nowMs % u32Size) := by
    have small : (nowMs - msg.createdAtMs) / blockTimeMs % u32Size * pointsPerBlock < u32Size := by
      rw [pointsPerBlock, Nat.mul_one]
      exact Nat.mod_lt _ (by decide)
    rw [ageFactor, checkedMul_of_lt small, pointsPerBlock, Nat.mul_one]
    rfl
  have chain : msg.effectivePriority nowMs =
      (checkedAdd u32Size msg.priority msg.retryCount).bind fun base =>
        (checkedAdd u32Size base (msg.ageBlocks nowMs % u32Size)).bind fun aged =>
          checkedAdd u32Size aged (msg.boost nowMs) := by
    simp only [effectivePriority, known, Option.bind_eq_bind, Option.bind_some]
    rw [age, amount]
    rfl
  rw [chain]
  unfold checkedAdd
  split
  · rw [Option.bind_some]
    split
    · rfl
    · rw [Option.bind_none, if_neg (by omega)]
  · rw [Option.bind_none, if_neg (by omega)]

theorem effectivePriority_eq_exact (fits : msg.DeadlineFits) (live : ¬ msg.Expired nowMs)
    (small : msg.exactPriority nowMs < u32Size) :
    msg.effectivePriority nowMs = some (msg.exactPriority nowMs) := by
  have age : msg.ageBlocks nowMs % u32Size = msg.ageBlocks nowMs := by
    apply Nat.mod_eq_of_lt
    unfold exactPriority at small
    omega
  rw [effectivePriority_of_live fits live, age]
  exact if_pos small

/-! ## The shape of the priority -/

/-- The times are such that nothing overflows for a message within its budgets. -/
structure TimesFit (msg : Message) (nowMs : ℕ) : Prop where
  deadline : msg.DeadlineFits
  age : msg.ageBlocks nowMs + 203 < u32Size

theorem TimesFit.earlier (fits : msg.TimesFit laterMs) (le : nowMs ≤ laterMs) :
    msg.TimesFit nowMs :=
  ⟨fits.deadline, Nat.lt_of_le_of_lt (Nat.add_le_add_right (ageBlocks_mono msg le) _) fits.age⟩

/-- A live message within its budgets has its exact priority. -/
theorem effectivePriority_of_budget (priority : msg.priority ≤ maxPriority)
    (retries : msg.retryCount ≤ maxRetries) (fits : msg.TimesFit nowMs)
    (live : ¬ msg.Expired nowMs) :
    msg.effectivePriority nowMs = some (msg.exactPriority nowMs) := by
  apply effectivePriority_eq_exact fits.deadline live
  have boosted := boost_le msg nowMs
  have aged := fits.age
  simp only [maxPriority, maxRetries] at priority retries boosted
  unfold exactPriority
  omega

/-- The two notions of expiry agree and take the priority to zero.  Before expiry the priority
    is at least what the message came with, does not fall as time passes, and does not fall
    with an earlier deadline. -/
theorem priority_shape (msg : Message) (priority : msg.priority ≤ maxPriority)
    (retries : msg.retryCount ≤ maxRetries) :
    (∀ nowMs, msg.TimesFit nowMs →
      (msg.deadlineFactor nowMs = some (some 0) ↔ msg.isExpired nowMs = some true) ∧
      (msg.isExpired nowMs = some true → msg.effectivePriority nowMs = some 0) ∧
      (msg.isExpired nowMs = some false → ∃ p, msg.effectivePriority nowMs = some p ∧
        msg.priority + msg.retryCount ≤ p)) ∧
    (∀ nowMs laterMs, nowMs ≤ laterMs → msg.TimesFit laterMs →
      msg.isExpired laterMs = some false → ∃ p later, msg.effectivePriority nowMs = some p ∧
        msg.effectivePriority laterMs = some later ∧ p ≤ later) ∧
    ∀ nowMs deadline, (∀ late ∈ deadline, ∃ early ∈ msg.deadlineMs, early ≤ late) →
      let other := { msg with deadlineMs := deadline }
      msg.TimesFit nowMs → other.TimesFit nowMs → msg.isExpired nowMs = some false →
      other.isExpired nowMs = some false → ∃ p lower, msg.effectivePriority nowMs = some p ∧
        other.effectivePriority nowMs = some lower ∧ lower ≤ p := by
  refine ⟨fun nowMs fits => ⟨?_, ?_, ?_⟩, ?_, ?_⟩
  · rw [deadlineFactor_eq_zero_iff fits.deadline, isExpired_eq_true_iff fits.deadline]
  · intro expired
    exact effectivePriority_of_expired fits.deadline
      ((isExpired_eq_true_iff fits.deadline).mp expired)
  · intro live
    rw [isExpired_eq_false_iff fits.deadline] at live
    refine ⟨_, effectivePriority_of_budget priority retries fits live, ?_⟩
    unfold exactPriority
    omega
  · intro nowMs laterMs le fits live
    rw [isExpired_eq_false_iff fits.deadline] at live
    have before : ¬ msg.Expired nowMs := fun expired => live (expired_mono le expired)
    have early := effectivePriority_of_budget priority retries (fits.earlier le) before
    have late := effectivePriority_of_budget priority retries fits live
    exact ⟨_, _, early, late, exactPriority_mono msg le⟩
  · intro nowMs deadline later other fits fits' live live'
    rw [isExpired_eq_false_iff fits.deadline] at live
    rw [isExpired_eq_false_iff fits'.deadline] at live'
    have higher := effectivePriority_of_budget priority retries fits live
    have lower : other.effectivePriority nowMs = some (other.exactPriority nowMs) :=
      effectivePriority_of_budget priority retries fits' live'
    exact ⟨_, _, higher, lower, exactPriority_later later⟩

/-- Across the far threshold of the boost, ten blocks before the deadline. -/
theorem priority_shape_toward_deadline :
    let msg := { sampleMessage with priority := 100, deadlineMs := some 30_000 }
    ∃ p later, msg.effectivePriority 9_000 = some p ∧
      msg.effectivePriority 29_000 = some later ∧ p ≤ later := by
  intro msg
  have fits : msg.TimesFit 29_000 := ⟨by decide, by decide⟩
  exact (priority_shape msg (by decide) (by decide)).2.1 9_000 29_000 (by decide) fits (by decide)

/-! ## Where the arithmetic is exact -/

/-- Nothing wraps, is cut or panics: the code follows the formula over the integers. -/
structure ArithmeticExact (msg : Message) (nowMs : ℕ) : Prop where
  expiry : msg.isExpired nowMs = some (decide (msg.Expired nowMs))
  factor : msg.deadlineFactor nowMs ≠ none
  priority : msg.effectivePriority nowMs =
    some (if msg.Expired nowMs then 0 else msg.exactPriority nowMs)

/-- A message that the public interface lets a caller have. -/
inductive Obtainable : Message → Prop where
  | new {recipient : Option Address} {value : Fin (2 ^ 256)} {data : List UInt8}
      {gas priority nowMs : ℕ} {deadlineMs : Option ℕ} : gas < u64Size → priority < u32Size →
      (∀ deadline ∈ deadlineMs, deadline < u32Size) → nowMs < u64Size →
      Obtainable (.new recipient gas value data priority deadlineMs nowMs)
  | setPriority {msg : Message} {priority : ℕ} : Obtainable msg → priority < u32Size →
      Obtainable { msg with priority }
  | setDeadline {msg : Message} {deadlineMs : Option ℕ} : Obtainable msg →
      (∀ deadline ∈ deadlineMs, deadline < u32Size) → Obtainable { msg with deadlineMs }
  | retried {msg : Message} : Obtainable msg → Obtainable msg.incrementRetry

theorem exactPriority_lt_of_eq (fits : msg.DeadlineFits) (live : ¬ msg.Expired nowMs)
    (computed : msg.effectivePriority nowMs = some (msg.exactPriority nowMs)) :
    msg.exactPriority nowMs < u32Size := by
  rw [effectivePriority_of_live fits live] at computed
  obtain ⟨small, same⟩ := Option.ite_none_right_eq_some.mp computed
  rw [← Option.some.inj same]
  exact small

/-- For every message and time, the arithmetic is exact when the absolute deadline is a `u64`
    and, unless the message has expired, the sum is a `u32`, and only then. -/
theorem arithmeticExact_iff (msg : Message) (nowMs : ℕ) :
    msg.ArithmeticExact nowMs ↔
      msg.DeadlineFits ∧ (msg.Expired nowMs ∨ msg.exactPriority nowMs < u32Size) := by
  constructor
  · intro exact_
    have fits := deadlineFits_of_isExpired exact_.expiry
    refine ⟨fits, or_iff_not_imp_left.mpr fun live => ?_⟩
    have computed := exact_.priority
    rw [if_neg live] at computed
    exact exactPriority_lt_of_eq fits live computed
  · intro conditions
    obtain ⟨fits, either⟩ := conditions
    refine ⟨isExpired_eq fits, ?_, ?_⟩
    · by_cases expired : msg.Expired nowMs
      · simp [deadlineFactor_of_expired fits expired]
      · obtain ⟨factor, known, -⟩ := deadlineFactor_of_live fits expired
        simp [known]
    · by_cases expired : msg.Expired nowMs
      · rw [if_pos expired]
        exact effectivePriority_of_expired fits expired
      · rw [if_neg expired]
        exact effectivePriority_eq_exact fits expired (either.resolve_left expired)

/-- The public field takes a priority that `new` would have clamped, and one block of age is
    too much for it; and a deadline of a millisecond is too much for the last `u64` time. -/
theorem arithmetic_overflows :
    let raised := { sampleMessage with priority := 4_294_967_295 }
    let last := Message.new none 21_000 0 [] 0 (some 1) 18_446_744_073_709_551_615
    (Obtainable raised ∧ raised.effectivePriority 2_000 = none ∧
      ¬ raised.ArithmeticExact 2_000) ∧
    Obtainable last ∧ last.isExpired 0 = none ∧ ¬ last.ArithmeticExact 0 := by
  intro raised last
  have obtained : Obtainable sampleMessage :=
    .new (by decide) (by decide) (by simp) (by decide)
  refine ⟨⟨.setPriority obtained (by decide), by decide, fun exact_ => ?_⟩,
    .new (by decide) (by decide) (by simp [u32Size]) (by decide), by decide, fun exact_ => ?_⟩
  · have computed := exact_.priority
    rw [show raised.effectivePriority 2_000 = none by decide] at computed
    cases computed
  · have computed := exact_.expiry
    rw [show last.isExpired 0 = none by decide] at computed
    cases computed

end Bulkmail.Sender.Message
