import Bulkmail.Sender.Adapter

/-! # A message task

`process_message` and `send_and_watch` as a machine that stops at every await point.  A
phase is what the task still has to do and the variables it has in scope there; an
answer is what the awaited component returns; resuming runs the code up to the next
await.  Each resumption carries the wall-clock time at which it happens.
-/

namespace Bulkmail.Sender

open Library

/-- How a task ends.  An error is kept with the message and the time at which it came
    back, a requeued message with the priority it was pushed at. -/
inductive Exit where
  | confirmed
  | failed (error : Error) (msg : Message) (nowMs : ℕ)
  | exhausted (msg : Message)
  | abandoned
  | requeued (msg : Message) (priority : ℕ)
  | panicked
  deriving DecidableEq, Repr

/-- What follows a release of the replay token. -/
inductive AfterRelease where
  | exit (exit : Exit)
  | addMessage (msg : Message)
  deriving DecidableEq, Repr

inductive Phase (Fee Token TxId : Type) where
  | starting (msg : Message)
  | nextToken (msg : Message) (nowMs : ℕ)
  | feeParams (msg : Message) (replayToken : Token) (priority : ℕ)
  | iterating (msg : Message) (fee : Fee) (replayToken : Token) (replacementCount : ℕ)
  | sending (msg : Message) (fee : Fee) (replayToken : Token) (replacementCount : ℕ)
  | confirming (pending : PendingTransaction Fee Token TxId)
  /-- The message has its retry counted; the pending transaction keeps the old one. -/
  | retrying (msg : Message) (pending : PendingTransaction Fee Token TxId)
  | releasing (replayToken : Token) (after : AfterRelease)
  | adding (msg : Message)
  | finished (exit : Exit)
  deriving DecidableEq, Repr

inductive Answer (Fee Token TxId : Type) where
  /-- Nothing is awaited but the task's turn, a clock or the end of a call. -/
  | ready
  | token (replayToken : Token)
  | fee (result : Except Error Fee)
  | outcome (result : Except Error (SendOutcome TxId))
  | decision (decision : RetryDecision Fee Token)

namespace Phase

variable {Fee Token TxId : Type}

/-- The part of the loop behind a dropped or reverted transaction. -/
def handleUnconfirmed (pending : PendingTransaction Fee Token TxId) : Phase Fee Token TxId :=
  let msg := pending.msg.incrementRetry
  if msg.canRetry then .retrying msg pending
  else .releasing pending.replayToken (.exit (.exhausted msg))

def resume (nowMs : ℕ) :
    Phase Fee Token TxId → Answer Fee Token TxId → Option (Phase Fee Token TxId)
  | .starting msg, .ready =>
      match msg.isExpired nowMs with
      | none => some (.finished .panicked)
      | some true => some (.finished (.failed .messageExpired msg nowMs))
      | some false => some (.nextToken msg nowMs)
  | .nextToken msg startMs, .token replayToken =>
      match msg.effectivePriority startMs with
      | none => some (.finished .panicked)
      | some priority => some (.feeParams msg replayToken priority)
  | .feeParams msg replayToken _, .fee result =>
      match result with
      | .ok fee => some (.iterating msg fee replayToken 0)
      | .error error => some (.releasing replayToken (.exit (.failed error msg nowMs)))
  | .iterating msg fee replayToken replacementCount, .ready =>
      match msg.isExpired nowMs with
      | none => some (.finished .panicked)
      | some true => some (.releasing replayToken (.exit (.failed .messageExpired msg nowMs)))
      | some false => some (.sending msg fee replayToken replacementCount)
  | .sending msg fee replayToken replacementCount, .outcome result =>
      match result with
      | .error error => some (.releasing replayToken (.exit (.failed error msg nowMs)))
      | .ok (.confirmed txId) => some (.confirming ⟨msg, txId, fee, replayToken, replacementCount⟩)
      | .ok (.dropped txId) | .ok (.reverted txId) =>
          some (handleUnconfirmed ⟨msg, txId, fee, replayToken, replacementCount⟩)
  | .confirming _, .ready => some (.finished .confirmed)
  | .retrying msg pending, .decision decision =>
      match decision with
      | .resubmit fee replayToken =>
          some (.iterating msg fee replayToken (pending.replacementCount + 1))
      | .requeue => some (.releasing pending.replayToken (.addMessage msg))
      | .abandon => some (.releasing pending.replayToken (.exit .abandoned))
  | .releasing _ (.exit exit), .ready => some (.finished exit)
  | .releasing _ (.addMessage msg), .ready => some (.adding msg)
  | .adding msg, .ready =>
      match msg.effectivePriority nowMs with
      | none => some (.finished .panicked)
      | some priority => some (.finished (.requeued msg priority))
  | _, _ => none

/-- Everything a resumption can do, one constructor for each path between two awaits. -/
inductive Resumed (nowMs : ℕ) :
    Phase Fee Token TxId → Answer Fee Token TxId → Phase Fee Token TxId → Prop where
  | startPanic {msg} : msg.isExpired nowMs = none →
      Resumed nowMs (.starting msg) .ready (.finished .panicked)
  | startExpired {msg} : msg.isExpired nowMs = some true →
      Resumed nowMs (.starting msg) .ready (.finished (.failed .messageExpired msg nowMs))
  | started {msg} : msg.isExpired nowMs = some false →
      Resumed nowMs (.starting msg) .ready (.nextToken msg nowMs)
  | drawPanic {msg startMs t} : msg.effectivePriority startMs = none →
      Resumed nowMs (.nextToken msg startMs) (.token t) (.finished .panicked)
  | drawn {msg startMs t priority} : msg.effectivePriority startMs = some priority →
      Resumed nowMs (.nextToken msg startMs) (.token t) (.feeParams msg t priority)
  | priced {msg t priority fee} :
      Resumed nowMs (.feeParams msg t priority) (.fee (.ok fee)) (.iterating msg fee t 0)
  | feeFailed {msg t priority error} :
      Resumed nowMs (.feeParams msg t priority) (.fee (.error error))
        (.releasing t (.exit (.failed error msg nowMs)))
  | loopPanic {msg fee t count} : msg.isExpired nowMs = none →
      Resumed nowMs (.iterating msg fee t count) .ready (.finished .panicked)
  | loopExpired {msg fee t count} : msg.isExpired nowMs = some true →
      Resumed nowMs (.iterating msg fee t count) .ready
        (.releasing t (.exit (.failed .messageExpired msg nowMs)))
  | sent {msg fee t count} : msg.isExpired nowMs = some false →
      Resumed nowMs (.iterating msg fee t count) .ready (.sending msg fee t count)
  | sendFailed {msg fee t count error} :
      Resumed nowMs (.sending msg fee t count) (.outcome (.error error))
        (.releasing t (.exit (.failed error msg nowMs)))
  | sendConfirmed {msg fee t count txId} :
      Resumed nowMs (.sending msg fee t count) (.outcome (.ok (.confirmed txId)))
        (.confirming ⟨msg, txId, fee, t, count⟩)
  | sendDropped {msg fee t count txId} :
      Resumed nowMs (.sending msg fee t count) (.outcome (.ok (.dropped txId)))
        (handleUnconfirmed ⟨msg, txId, fee, t, count⟩)
  | sendReverted {msg fee t count txId} :
      Resumed nowMs (.sending msg fee t count) (.outcome (.ok (.reverted txId)))
        (handleUnconfirmed ⟨msg, txId, fee, t, count⟩)
  | confirmed {pending} : Resumed nowMs (.confirming pending) .ready (.finished .confirmed)
  | resubmitted {msg pending fee t} :
      Resumed nowMs (.retrying msg pending) (.decision (.resubmit fee t))
        (.iterating msg fee t (pending.replacementCount + 1))
  | requeued {msg pending} :
      Resumed nowMs (.retrying msg pending) (.decision .requeue)
        (.releasing pending.replayToken (.addMessage msg))
  | abandoned {msg pending} :
      Resumed nowMs (.retrying msg pending) (.decision .abandon)
        (.releasing pending.replayToken (.exit .abandoned))
  | released {t exit} : Resumed nowMs (.releasing t (.exit exit)) .ready (.finished exit)
  | releasedToAdd {t msg} : Resumed nowMs (.releasing t (.addMessage msg)) .ready (.adding msg)
  | addPanic {msg} : msg.effectivePriority nowMs = none →
      Resumed nowMs (.adding msg) .ready (.finished .panicked)
  | added {msg priority} : msg.effectivePriority nowMs = some priority →
      Resumed nowMs (.adding msg) .ready (.finished (.requeued msg priority))

variable {phase next : Phase Fee Token TxId} {nowMs : ℕ} {answer : Answer Fee Token TxId}

theorem resume_spec (resumed : phase.resume nowMs answer = some next) :
    Resumed nowMs phase answer next := by
  unfold resume at resumed
  split at resumed
  · split at resumed
    · rename_i known
      cases resumed
      exact .startPanic known
    · rename_i known
      cases resumed
      exact .startExpired known
    · rename_i known
      cases resumed
      exact .started known
  · split at resumed
    · rename_i known
      cases resumed
      exact .drawPanic known
    · rename_i known
      cases resumed
      exact .drawn known
  · split at resumed
    · cases resumed
      exact .priced
    · cases resumed
      exact .feeFailed
  · split at resumed
    · rename_i known
      cases resumed
      exact .loopPanic known
    · rename_i known
      cases resumed
      exact .loopExpired known
    · rename_i known
      cases resumed
      exact .sent known
  · split at resumed
    · cases resumed
      exact .sendFailed
    · cases resumed
      exact .sendConfirmed
    · cases resumed
      exact .sendDropped
    · cases resumed
      exact .sendReverted
  · cases resumed
    exact .confirmed
  · split at resumed
    · cases resumed
      exact .resubmitted
    · cases resumed
      exact .requeued
    · cases resumed
      exact .abandoned
  · cases resumed
    exact .released
  · cases resumed
    exact .releasedToAdd
  · split at resumed
    · rename_i known
      cases resumed
      exact .addPanic known
    · rename_i known
      cases resumed
      exact .added known
  · cases resumed

/-- `send_transaction` leads to a release, a confirmation or a retry, all with the token and
    the fee it was called with. -/
theorem Resumed.after_sending {motive : Phase Fee Token TxId → Prop} {msg : Message} {fee : Fee}
    {t : Token} {count : ℕ} {result : Except Error (SendOutcome TxId)}
    (resumed : Resumed nowMs (.sending msg fee t count) (.outcome result) next)
    (releases : ∀ exit, exit ≠ .confirmed → motive (.releasing t (.exit exit)))
    (confirms : ∀ txId, motive (.confirming ⟨msg, txId, fee, t, count⟩))
    (retries : ∀ txId, motive (.retrying msg.incrementRetry ⟨msg, txId, fee, t, count⟩)) :
    motive next := by
  have unconfirmed : ∀ txId, motive (handleUnconfirmed ⟨msg, txId, fee, t, count⟩) := by
    intro txId
    simp only [handleUnconfirmed]
    split
    · exact retries txId
    · exact releases _ (by simp)
  cases resumed with
  | sendFailed => exact releases _ (by simp)
  | sendConfirmed => exact confirms _
  | sendDropped | sendReverted => exact unconfirmed _

/-! ## The token a task holds -/

def heldToken : Phase Fee Token TxId → Option Token
  | .feeParams _ replayToken _ | .iterating _ _ replayToken _ | .sending _ _ replayToken _
  | .releasing replayToken _ => some replayToken
  | .confirming pending | .retrying _ pending => some pending.replayToken
  | _ => none

/-- Whatever comes back from `send_transaction`, the token is still held. -/
theorem heldToken_resumed_sending {msg : Message} {fee : Fee} {t : Token} {count : ℕ}
    {result : Except Error (SendOutcome TxId)}
    (resumed : Resumed nowMs (.sending msg fee t count) (.outcome result) next) :
    next.heldToken = some t := by
  apply resumed.after_sending
  · exact fun _ _ => rfl
  · exact fun _ => rfl
  · exact fun _ => rfl

/-! ## Retries and replacements -/

/-- No more replacements than retries, and no strategy is asked once the budget is gone. -/
def WellCounted : Phase Fee Token TxId → Prop
  | .iterating msg _ _ replacementCount | .sending msg _ _ replacementCount =>
      replacementCount ≤ msg.retryCount
  | .retrying msg pending =>
      pending.msg.retryCount + 1 < Message.maxRetries ∧
      msg.retryCount = pending.msg.retryCount + 1 ∧
      pending.replacementCount ≤ pending.msg.retryCount
  | _ => True

theorem wellCounted_handleUnconfirmed {pending : PendingTransaction Fee Token TxId}
    (counted : pending.replacementCount ≤ pending.msg.retryCount) :
    (handleUnconfirmed pending).WellCounted := by
  simp only [handleUnconfirmed]
  split
  · rename_i again
    have spent := Message.retryCount_incrementRetry again
    exact ⟨spent.2, spent.1, counted⟩
  · trivial

theorem wellCounted_resumed (counted : phase.WellCounted)
    (resumed : Resumed nowMs phase answer next) : next.WellCounted := by
  cases resumed with
  | priced => exact Nat.zero_le _
  | sent => exact counted
  | sendDropped | sendReverted => exact wellCounted_handleUnconfirmed counted
  | @resubmitted msg pending fee t =>
      change pending.replacementCount + 1 ≤ msg.retryCount
      rw [counted.2.1]
      exact Nat.succ_le_succ counted.2.2
  | startPanic | startExpired | started | drawPanic | drawn | feeFailed | loopPanic | loopExpired
  | sendFailed | sendConfirmed | confirmed | requeued | abandoned | released | releasedToAdd
  | addPanic | added => trivial

/-! ## The message a task carries -/

def messages : Phase Fee Token TxId → List Message
  | .starting msg | .nextToken msg _ | .feeParams msg _ _ | .iterating msg _ _ _
  | .sending msg _ _ _ | .releasing _ (.addMessage msg) | .adding msg => [msg]
  | .confirming pending => [pending.msg]
  | .retrying msg pending => [msg, pending.msg]
  | .releasing _ (.exit exit) | .finished exit =>
      match exit with
      | .failed _ msg _ | .exhausted msg | .requeued msg _ => [msg]
      | .confirmed | .abandoned | .panicked => []

/-- All it speaks of is the one message, whatever its retries. -/
def Bears (phase : Phase Fee Token TxId) (content : Message) : Prop :=
  ∀ msg ∈ phase.messages, msg.content = content

def CarriesOn (phase next : Phase Fee Token TxId) : Prop :=
  ∀ content, phase.Bears content → next.Bears content

theorem carriesOn_nothing (vacant : next.messages = []) : phase.CarriesOn next := by
  intro content _ msg member
  rw [vacant] at member
  cases member

theorem carriesOn_handleUnconfirmed {msg : Message} {fee : Fee} {t : Token} {count : ℕ}
    (txId : TxId) :
    (sending msg fee t count : Phase Fee Token TxId).CarriesOn
      (handleUnconfirmed ⟨msg, txId, fee, t, count⟩) := by
  intro content bears
  have same := bears msg (List.mem_singleton_self msg)
  simp only [handleUnconfirmed]
  split
  · intro other member
    simp only [messages, List.mem_cons, List.not_mem_nil, or_false] at member
    obtain rfl | rfl := member
    · exact same
    · exact same
  · intro other member
    obtain rfl := List.mem_singleton.mp member
    exact same

theorem Resumed.carriesOn (resumed : Resumed nowMs phase answer next) : phase.CarriesOn next := by
  cases resumed with
  | startPanic | drawPanic | loopPanic | addPanic | confirmed | abandoned =>
      exact carriesOn_nothing rfl
  | startExpired | started | drawn | priced | feeFailed | loopExpired | sent | sendFailed
  | sendConfirmed | released | releasedToAdd | added => exact fun _ bears => bears
  | sendDropped | sendReverted => exact carriesOn_handleUnconfirmed _
  | resubmitted | requeued =>
      intro content bears other member
      obtain rfl := List.mem_singleton.mp member
      exact bears _ List.mem_cons_self

end Phase

end Bulkmail.Sender
