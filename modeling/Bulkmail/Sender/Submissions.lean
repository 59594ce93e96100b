import Bulkmail.Sender.Delivery

/-! # How often a message is sent

`send_and_watch` has no bound of its own.  It ends because the retry counter travels
with the message, through every replacement and every requeue, and is counted up before
the strategy is asked.  Two potentials say so: the submissions a message has left, and
the steps its life has left, whatever the adapter and the strategy answer.
-/

namespace Bulkmail.Sender

open Library

variable {Fee Token TxId : Type}

namespace Message

/-- The retries a message can still use. -/
def retriesLeft (msg : Message) : ℕ := maxRetries - 1 - msg.retryCount

theorem retriesLeft_incrementRetry {msg : Message} (again : msg.incrementRetry.canRetry = true) :
    msg.incrementRetry.retriesLeft + 1 = msg.retriesLeft := by
  have counted := retryCount_incrementRetry again
  simp only [retriesLeft]
  omega

end Message

def Exit.submissionsLeft : Exit → ℕ
  | .requeued msg _ => msg.retriesLeft + 1
  | _ => 0

/-- A requeued message is popped and processed again from the start. -/
def Exit.stepsLeft : Exit → ℕ
  | .requeued msg _ => 9 * msg.retriesLeft + 7
  | _ => 0

namespace Phase

def submissionsLeft : Phase Fee Token TxId → ℕ
  | .starting msg | .nextToken msg _ | .feeParams msg _ _ | .iterating msg _ _ _
  | .retrying msg _ | .releasing _ (.addMessage msg) | .adding msg => msg.retriesLeft + 1
  | .sending msg _ _ _ => msg.retriesLeft
  | .releasing _ (.exit exit) | .finished exit => exit.submissionsLeft
  | .confirming _ => 0

/-- The longest way through a retry is a requeue, nine steps from one send to the next. -/
def stepsLeft : Phase Fee Token TxId → ℕ
  | .starting msg => 9 * msg.retriesLeft + 6
  | .nextToken msg _ => 9 * msg.retriesLeft + 5
  | .feeParams msg _ _ => 9 * msg.retriesLeft + 4
  | .iterating msg _ _ _ => 9 * msg.retriesLeft + 3
  | .sending msg _ _ _ => 9 * msg.retriesLeft + 2
  | .retrying msg _ => 9 * msg.retriesLeft + 10
  | .releasing _ (.addMessage msg) => 9 * msg.retriesLeft + 9
  | .adding msg => 9 * msg.retriesLeft + 8
  | .releasing _ (.exit exit) => exit.stepsLeft + 1
  | .finished exit => exit.stepsLeft
  | .confirming _ => 1

/-- The task hands a transaction to the client. -/
def submits : Phase Fee Token TxId → Bool
  | .sending _ _ _ _ => true
  | _ => false

variable {phase next : Phase Fee Token TxId} {nowMs : ℕ} {answer : Answer Fee Token TxId}

theorem left_handleUnconfirmed (pending : PendingTransaction Fee Token TxId) :
    (handleUnconfirmed pending).submits = false ∧
    (handleUnconfirmed pending).submissionsLeft ≤ pending.msg.retriesLeft ∧
    (handleUnconfirmed pending).stepsLeft < 9 * pending.msg.retriesLeft + 2 := by
  simp only [handleUnconfirmed]
  split
  · rename_i again
    have spent := Message.retriesLeft_incrementRetry again
    refine ⟨rfl, ?_⟩
    simp only [submissionsLeft, stepsLeft]
    omega
  · simp [submits, submissionsLeft, stepsLeft, Exit.submissionsLeft, Exit.stepsLeft]

theorem left_resumed (resumed : Resumed nowMs phase answer next) :
    next.submits.toNat + next.submissionsLeft ≤ phase.submissionsLeft ∧
      next.stepsLeft < phase.stepsLeft := by
  cases resumed with
  | @sendDropped msg fee t count txId | @sendReverted msg fee t count txId =>
      obtain ⟨quiet, fewer, shorter⟩ := left_handleUnconfirmed
        (⟨msg, txId, fee, t, count⟩ : PendingTransaction Fee Token TxId)
      simp only [quiet, Bool.toNat_false, Nat.zero_add]
      exact ⟨fewer, shorter⟩
  | sent =>
      simp only [submits, submissionsLeft, stepsLeft, Bool.toNat_true]
      omega
  | startPanic | startExpired | started | drawPanic | drawn | priced | feeFailed | loopPanic
  | loopExpired | sendFailed | sendConfirmed | confirmed | resubmitted | requeued | abandoned
  | released | releasedToAdd | addPanic | added =>
      simp only [submits, submissionsLeft, stepsLeft, Exit.submissionsLeft, Exit.stepsLeft,
        Bool.toNat_false]
      omega

end Phase

namespace Life

variable {life next last : Life Fee Token TxId} {event : LifeEvent Fee Token TxId}

def submissionsLeft : Life Fee Token TxId → ℕ
  | .queued msg _ => msg.retriesLeft + 1
  | .running phase => phase.submissionsLeft
  | .ended _ => 0

def stepsLeft : Life Fee Token TxId → ℕ
  | .queued msg _ => 9 * msg.retriesLeft + 7
  | .running phase => phase.stepsLeft
  | .ended _ => 0

/-- This step passes the message to `send_transaction`. -/
def submits (life : Life Fee Token TxId) (event : LifeEvent Fee Token TxId) : Bool :=
  match life.step event with
  | some (.running phase) => phase.submits
  | _ => false

/-- How often the message is passed to `send_transaction` along the run. -/
def submissions : Life Fee Token TxId → List (LifeEvent Fee Token TxId) → ℕ := tally step submits

theorem left_settle (phase : Phase Fee Token TxId) :
    (settle phase).submissionsLeft ≤ phase.submissionsLeft ∧
      (settle phase).stepsLeft ≤ phase.stepsLeft := by
  cases phase with
  | finished exit =>
      cases exit with
      | requeued | confirmed | failed | exhausted | abandoned | panicked => exact ⟨le_rfl, le_rfl⟩
  | starting | nextToken | feeParams | iterating | sending | confirming | retrying | releasing
  | adding => exact ⟨le_rfl, le_rfl⟩

theorem left_step (stepped : life.step event = some next) :
    (life.submits event).toNat + next.submissionsLeft ≤ life.submissionsLeft ∧
      next.stepsLeft < life.stepsLeft := by
  cases life with
  | queued msg priority =>
      cases event with
      | popped =>
          cases stepped
          simp [submits, step, Phase.submits, submissionsLeft, stepsLeft, Phase.submissionsLeft,
            Phase.stepsLeft]
      | resumed => cases stepped
  | running phase =>
      cases event with
      | popped => cases stepped
      | resumed nowMs answer =>
          obtain ⟨resumed, result, rfl⟩ := Option.map_eq_some_iff.mp stepped
          have counted : submits (.running phase) (.resumed nowMs answer) = resumed.submits := by
            simp only [submits, step, result, Option.map_some]
            cases resumed with
            | finished exit => cases exit <;> rfl
            | starting | nextToken | feeParams | iterating | sending | confirming | retrying
            | releasing | adding => rfl
          have left := Phase.left_resumed (Phase.resume_spec result)
          have settled := left_settle resumed
          rw [counted]
          exact ⟨(Nat.add_le_add_left settled.1 _).trans left.1, settled.2.trans_lt left.2⟩
  | ended exit => cases event <;> cases stepped

/-- Whatever comes back, the budget bounds the submissions and the life is short. -/
theorem submissions_le {msg : Message} {nowMs : ℕ} {accepted : Life Fee Token TxId}
    {events : List (LifeEvent Fee Token TxId)} (fresh : msg.retryCount = 0)
    (added : addMessage msg nowMs = some accepted) (ran : runs step accepted events = some last) :
    accepted.submissions events ≤ Message.maxRetries ∧ events.length ≤ 25 := by
  obtain ⟨priority, -, rfl⟩ := Option.map_eq_some_iff.mp added
  have budget : msg.retriesLeft = 2 := by simp [Message.retriesLeft, fresh, Message.maxRetries]
  have sent := tally_add_le (fun life event next stepped => (left_step stepped).1) ran
  have shrinks : ∀ (life : Life Fee Token TxId) event next, life.step event = some next →
      (true).toNat + next.stepsLeft ≤ life.stepsLeft := by
    intro life event next stepped
    have shorter := (left_step stepped).2
    rw [Bool.toNat_true]
    omega
  have taken := tally_add_le shrinks ran
  rw [tally_all ran] at taken
  simp only [submissionsLeft, stepsLeft, budget] at sent taken
  constructor
  · exact (Nat.le_add_right _ _).trans sent
  · exact (Nat.le_add_right _ _).trans taken

end Life

end Bulkmail.Sender
