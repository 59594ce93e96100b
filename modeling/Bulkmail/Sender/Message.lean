import Bulkmail.Library.Checked

/-! # Messages

The transaction intents of `bulkmail/src/message.rs`.  Times are milliseconds since the
epoch in `u64`, the deadline is a `u32` offset from the creation time, and the counters
and priorities are `u32`.  A result of `none` is an arithmetic panic.
-/

namespace Bulkmail.Sender

open Library

abbrev Address := Fin (2 ^ 160)

structure Message where
  /-- The field `to`; contract creation has none. -/
  recipient : Option Address
  value : Fin (2 ^ 256)
  data : List UInt8
  gas : ℕ
  priority : ℕ
  deadlineMs : Option ℕ
  createdAtMs : ℕ
  retryCount : ℕ
  deriving DecidableEq, Repr

namespace Message

def maxPriority : ℕ := 100

def blockTimeMs : ℕ := 2_000

def pointsPerBlock : ℕ := 1

def maxRetries : ℕ := 3

def deadlineBoostNearBlocks : ℕ := 2

def deadlineBoostFarBlocks : ℕ := 10

def new (recipient : Option Address) (gas : ℕ) (value : Fin (2 ^ 256)) (data : List UInt8)
    (priority : ℕ) (deadlineMs : Option ℕ) (nowMs : ℕ) : Message where
  recipient := recipient
  value := value
  data := data
  gas := gas
  priority := min priority maxPriority
  deadlineMs := deadlineMs
  createdAtMs := nowMs
  retryCount := 0

/-- The outer `none` is a panic, the inner one the source's `None`. -/
def deadlineFactor (msg : Message) (nowMs : ℕ) : Option (Option ℕ) :=
  match msg.deadlineMs with
  | none => some none
  | some deadlineMs =>
      (checkedAdd u64Size msg.createdAtMs deadlineMs).map fun absDeadlineMs =>
        if absDeadlineMs ≤ nowMs then some 0
        else
          let remainingBlocks := (absDeadlineMs - nowMs) / blockTimeMs
          if remainingBlocks < deadlineBoostNearBlocks then some maxPriority
          else if remainingBlocks < deadlineBoostFarBlocks then
            let range := deadlineBoostFarBlocks - deadlineBoostNearBlocks
            let distFromNear := remainingBlocks - deadlineBoostNearBlocks
            let minBoost := maxPriority / 3
            some (maxPriority - (maxPriority - minBoost) * distFromNear / range)
          else none

/-- The age is cut to 32 bits before it is scaled, as the cast in the source does. -/
def ageFactor (msg : Message) (nowMs : ℕ) : Option ℕ :=
  checkedMul u32Size ((nowMs - msg.createdAtMs) / blockTimeMs % u32Size) pointsPerBlock

def effectivePriority (msg : Message) (nowMs : ℕ) : Option ℕ := do
  match ← msg.deadlineFactor nowMs with
  | some 0 => return 0
  | factor =>
      let ageFactor ← msg.ageFactor nowMs
      let base ← checkedAdd u32Size msg.priority msg.retryCount
      let aged ← checkedAdd u32Size base ageFactor
      checkedAdd u32Size aged (factor.getD 0)

def canRetry (msg : Message) : Bool := msg.retryCount < maxRetries

/-- The message `increment_retry` leaves behind; its result is `canRetry` of that. -/
def incrementRetry (msg : Message) : Message :=
  { msg with retryCount := saturatingAdd u32Size msg.retryCount 1 }

/-- What was asked for, whatever the retries. -/
def content (msg : Message) : Message := { msg with retryCount := 0 }

def isExpired (msg : Message) (nowMs : ℕ) : Option Bool :=
  match msg.deadlineMs with
  | none => some false
  | some deadlineMs =>
      (checkedAdd u64Size msg.createdAtMs deadlineMs).map fun absDeadlineMs => absDeadlineMs ≤ nowMs

/-- A message that is given another retry has used fewer than the budget before. -/
theorem retryCount_incrementRetry {msg : Message} (again : msg.incrementRetry.canRetry = true) :
    msg.incrementRetry.retryCount = msg.retryCount + 1 ∧ msg.retryCount + 1 < maxRetries := by
  have fewer : msg.incrementRetry.retryCount < maxRetries := of_decide_eq_true again
  simp only [incrementRetry, saturatingAdd, maxRetries, u32Size] at fewer ⊢
  omega

end Message

/-- A message without a deadline or payload, for concrete histories. -/
def sampleMessage : Message := .new none 21_000 0 [] 0 none 0

end Bulkmail.Sender
