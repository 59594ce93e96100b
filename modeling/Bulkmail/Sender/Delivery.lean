import Bulkmail.Library.Runs
import Bulkmail.Sender.Task

/-! # What becomes of a message

The life of one message: it waits on the queue, a task is spawned for it, and it goes
back to the queue or its processing ends.  An end is justified when the message was
confirmed, abandoned by the strategy, past its deadline, out of retries, or met by the
insufficient-funds error.  Fee and send errors end the processing without looking at
any of this, so whether every end is justified depends on the errors that come back.
-/

namespace Bulkmail.Sender

open Library

variable {Fee Token TxId : Type}

inductive Life (Fee Token TxId : Type) where
  | queued (msg : Message) (priority : ℕ)
  | running (phase : Phase Fee Token TxId)
  | ended (exit : Exit)
  deriving DecidableEq, Repr

inductive LifeEvent (Fee Token TxId : Type) where
  | popped
  | resumed (nowMs : ℕ) (answer : Answer Fee Token TxId)

namespace Life

/-- `add_message`: the push computes the priority, and may panic doing so. -/
def addMessage (msg : Message) (nowMs : ℕ) : Option (Life Fee Token TxId) :=
  (msg.effectivePriority nowMs).map (.queued msg)

def settle : Phase Fee Token TxId → Life Fee Token TxId
  | .finished (.requeued msg priority) => .queued msg priority
  | .finished exit => .ended exit
  | phase => .running phase

def step : Life Fee Token TxId → LifeEvent Fee Token TxId → Option (Life Fee Token TxId)
  | .queued msg _, .popped => some (.running (.starting msg))
  | .running phase, .resumed nowMs answer => (phase.resume nowMs answer).map settle
  | _, _ => none

end Life

/-! ## Ends -/

/-- An error that may end the processing of the message it comes back for. -/
def Excused (error : Error) (msg : Message) (nowMs : ℕ) : Prop :=
  error.IsInsufficientFunds ∨ msg.isExpired nowMs = some true ∨ msg.canRetry = false

instance {error : Error} {msg : Message} {nowMs : ℕ} : Decidable (Excused error msg nowMs) :=
  inferInstanceAs (Decidable (_ ∨ _))

def Exit.Justified : Exit → Prop
  | .confirmed | .abandoned | .requeued _ _ => True
  | .failed error msg nowMs => Excused error msg nowMs
  | .exhausted msg => msg.canRetry = false
  | .panicked => False

/-- The end the task has come to, or is bound for once its token is released. -/
def Phase.fate : Phase Fee Token TxId → Option Exit
  | .finished exit | .releasing _ (.exit exit) => some exit
  | _ => none

def Life.fate : Life Fee Token TxId → Option Exit
  | .queued _ _ => none
  | .running phase => phase.fate
  | .ended exit => some exit

def Phase.Kept (phase : Phase Fee Token TxId) : Prop := ∀ exit ∈ phase.fate, exit.Justified

def Life.Kept (life : Life Fee Token TxId) : Prop := ∀ exit ∈ life.fate, exit.Justified

/-- What comes back is no error that has to be retried, and no clock reading makes the
    deadline or priority arithmetic overflow. -/
def Phase.Harmless (nowMs : ℕ) : Phase Fee Token TxId → Answer Fee Token TxId → Prop
  | .starting msg, _ | .iterating msg _ _ _, _ => msg.isExpired nowMs ≠ none
  | .nextToken msg startMs, _ => msg.effectivePriority startMs ≠ none
  | .feeParams msg _ _, .fee (.error error) => Excused error msg nowMs
  | .sending msg _ _ _, .outcome (.error error) => Excused error msg nowMs
  | .adding msg, _ => msg.effectivePriority nowMs ≠ none
  | _, _ => True

instance {phase : Phase Fee Token TxId} {nowMs : ℕ} {answer : Answer Fee Token TxId} :
    Decidable (phase.Harmless nowMs answer) := by
  unfold Phase.Harmless
  split <;> infer_instance

def Life.Harmless : Life Fee Token TxId → LifeEvent Fee Token TxId → Prop
  | .running phase, .resumed nowMs answer => phase.Harmless nowMs answer
  | _, _ => True

instance (life : Life Fee Token TxId) (event : LifeEvent Fee Token TxId) :
    Decidable (life.Harmless event) := by
  unfold Life.Harmless
  split <;> infer_instance

namespace Phase

theorem kept_handleUnconfirmed (pending : PendingTransaction Fee Token TxId) :
    (handleUnconfirmed pending).Kept := by
  simp only [handleUnconfirmed]
  split
  · simp [Kept, fate]
  · rename_i spent
    simpa [Kept, fate, Exit.Justified] using spent

/-- A resumption keeps the message exactly when it is harmless. -/
theorem kept_resumed_iff {phase next : Phase Fee Token TxId} {nowMs : ℕ}
    {answer : Answer Fee Token TxId} (kept : phase.Kept)
    (resumed : Resumed nowMs phase answer next) : next.Kept ↔ phase.Harmless nowMs answer := by
  cases resumed with
  | startPanic known | loopPanic known | drawPanic known | addPanic known =>
      simp [Kept, fate, Harmless, Exit.Justified, known]
  | startExpired known | loopExpired known =>
      simp [Kept, fate, Harmless, Exit.Justified, Excused, known]
  | started known | sent known | drawn known | added known =>
      simp [Kept, fate, Harmless, Exit.Justified, known]
  | feeFailed | sendFailed => simp [Kept, fate, Harmless, Exit.Justified]
  | priced | sendConfirmed | confirmed | resubmitted | requeued | abandoned | releasedToAdd =>
      simp [Kept, fate, Harmless, Exit.Justified]
  | sendDropped | sendReverted => simpa [Harmless] using kept_handleUnconfirmed _
  | released => simpa [Kept, fate, Harmless] using kept

end Phase

namespace Life

theorem kept_settle_iff (phase : Phase Fee Token TxId) : (settle phase).Kept ↔ phase.Kept := by
  cases phase with
  | finished exit =>
      cases exit with
      | requeued msg priority => simp [settle, Kept, Phase.Kept, fate, Phase.fate, Exit.Justified]
      | confirmed | failed | exhausted | abandoned | panicked =>
          simp [settle, Kept, Phase.Kept, fate, Phase.fate]
  | starting | nextToken | feeParams | iterating | sending | confirming | retrying | releasing
  | adding => rfl

theorem kept_step_iff {life next : Life Fee Token TxId} {event : LifeEvent Fee Token TxId}
    (kept : life.Kept) (stepped : life.step event = some next) :
    next.Kept ↔ life.Harmless event := by
  cases life with
  | queued msg priority =>
      cases event with
      | popped => cases stepped; simp [Kept, fate, Phase.fate, Harmless]
      | resumed => cases stepped
  | running phase =>
      cases event with
      | popped => cases stepped
      | resumed nowMs answer =>
          obtain ⟨next, resumed, rfl⟩ := Option.map_eq_some_iff.mp stepped
          rw [kept_settle_iff]
          exact Phase.kept_resumed_iff kept (Phase.resume_spec resumed)
  | ended exit => cases event <;> cases stepped

/-- Along every life of an accepted message: no unjustified end is reached or sealed
    exactly when every step is harmless. -/
theorem kept_throughout_iff {msg : Message} {nowMs : ℕ} {accepted last : Life Fee Token TxId}
    {events : List (LifeEvent Fee Token TxId)} (added : addMessage msg nowMs = some accepted)
    (ran : runs step accepted events = some last) :
    Throughout step Kept accepted events ↔ EachStep step Harmless accepted events := by
  obtain ⟨priority, -, rfl⟩ := Option.map_eq_some_iff.mp added
  have always : ∀ (life : Life Fee Token TxId) event next, True → step life event = some next →
      True := fun _ _ _ _ _ => trivial
  refine throughout_iff_eachStep always (fun life event next _ kept stepped => ?_) trivial ?_ ran
  · exact kept_step_iff kept stepped
  · simp [Kept, fate]

theorem kept_after_drop :
    let accepted : Life ℕ ℕ ℕ := queued sampleMessage 0
    let events : List (LifeEvent ℕ ℕ ℕ) := [.popped, .resumed 0 .ready, .resumed 0 (.token 7),
      .resumed 0 (.fee (.ok 1)), .resumed 0 .ready, .resumed 0 (.outcome (.ok (.dropped 4))),
      .resumed 0 (.decision (.resubmit 2 7)), .resumed 0 .ready,
      .resumed 0 (.outcome (.ok (.confirmed 5))), .resumed 0 .ready]
    addMessage sampleMessage 0 = some accepted ∧
    runs step accepted events = some (ended .confirmed) ∧
    Throughout step Kept accepted events := by
  intro accepted events
  have added : addMessage sampleMessage 0 = some accepted := rfl
  have ran : runs step accepted events = some (ended .confirmed) := rfl
  have harmless : EachStep step Harmless accepted events := by decide
  exact ⟨added, ran, (kept_throughout_iff added ran).mpr harmless⟩

/-- A send error on the first attempt drops a message with its whole budget left. -/
theorem lost_on_send_error :
    let error : Error := .chainError (.subscription "injected")
    let accepted : Life ℕ ℕ ℕ := queued sampleMessage 0
    let events : List (LifeEvent ℕ ℕ ℕ) := [.popped, .resumed 0 .ready, .resumed 0 (.token 7),
      .resumed 0 (.fee (.ok 1)), .resumed 0 .ready, .resumed 0 (.outcome (.error error)),
      .resumed 0 .ready]
    addMessage sampleMessage 0 = some accepted ∧
    runs step accepted events = some (ended (.failed error sampleMessage 0)) ∧
    sampleMessage.canRetry = true ∧ sampleMessage.isExpired 0 = some false ∧
    ¬ error.IsInsufficientFunds ∧ ¬ Throughout step Kept accepted events := by
  intro error accepted events
  have ran : runs step accepted events =
      some (ended (.failed error sampleMessage 0)) := rfl
  refine ⟨rfl, ran, by decide, by decide, by decide, fun kept => ?_⟩
  exact absurd (kept.last ran _ rfl) (by decide : ¬ Excused error sampleMessage 0)

end Life

end Bulkmail.Sender
