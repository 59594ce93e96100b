import Bulkmail.Ethereum.Exclusivity

/-! # Consumed nonces

Once a confirmation watcher has resolved, the transaction is in a block and its nonce
is used up, whatever the receipt says.  A task whose receipt reports success reports
the confirmation and ends.  On a reverted or missing receipt the sender goes on as for
a dropped transaction: it resubmits with the same nonce or releases it, and the nonce
is sent again.
-/

namespace Bulkmail.Ethereum

open Library Sender

namespace EthTask

variable {chainId nowMs n : ℕ} {nonces nonces' : NonceState} {task next : EthTask}
variable {answer : EthAnswer}

/-- The watcher has resolved for the transaction the task is about. -/
def Mined : EthTask → Prop
  | ⟨.confirming _, _⟩ | ⟨.sending _ _ _ _, .fetchingReceipt _⟩ => True
  | _ => False

/-- A receipt, where one is awaited, comes back and reports success. -/
def Succeeds (_ : EthTask) : EthAnswer → Prop
  | .receipt result => result = .ok (some true)
  | _ => True

instance (task : EthTask) : DecidablePred task.Succeeds
  | .receipt (.ok (some true)) => isTrue rfl
  | .receipt (.ok (some false)) | .receipt (.ok none) | .receipt (.error _) =>
      isFalse fun same => by cases same
  | .ready | .fee _ | .sent _ | .registered _ | .watched _ => isTrue trivial

/-- The nonce of the `send_transaction` call the task starts in this step. -/
def sends (nowMs : ℕ) (task : EthTask) : EthAnswer → Option ℕ
  | .ready =>
      match task.phase.resume nowMs .ready with
      | some (.sending _ _ nonce _) => some nonce
      | _ => none
  | _ => none

theorem sends_spec (sending : task.sends nowMs answer = some n) :
    ∃ msg fee count, task.phase = .iterating msg fee n count := by
  cases answer with
  | ready =>
      simp only [sends] at sending
      split at sending
      · rename_i msg fee nonce count resumed
        cases sending
        generalize task.phase = phase at resumed ⊢
        cases Phase.resume_spec resumed with
        | sent => exact ⟨msg, fee, count, rfl⟩
      · cases sending
  | fee | sent | registered | watched | receipt => cases sending

theorem mined_closed (advanced : Advanced chainId nowMs nonces task answer next nonces')
    (met : task.Succeeds answer) (mined : task.Mined) : next.heldNonce = none ∨ next.Mined := by
  cases advanced with
  | confirm => exact .inl rfl
  | @receiptCame msg fee nonce count hash result next spec =>
      obtain rfl : result = .ok (some true) := met
      cases spec with
      | sendConfirmed => exact .inr trivial
  | price spec =>
      cases spec with
      | priced | feeFailed => cases mined
  | start | drawPanic | draw | iterate | strategyReturns | strategyReleases | bumpPanic | resubmit
  | release | add | broadcast | register | watch | sendError | registerError | timedOut =>
      cases mined

theorem mined_stage : Stage Mined minedBy Succeeds where
  closed := mined_closed
  notGiving {task n after} mined releasing := by
    obtain ⟨phase, call⟩ := task
    obtain rfl : phase = .releasing n after := releasing
    cases mined
  marked advanced := by
    cases advanced with
    | @watch msg fee nonce count hash => exact .inr ⟨nonce, rfl, rfl, rfl, trivial, rfl⟩
    | start | drawPanic | draw | iterate | confirm | strategyReturns | strategyReleases | bumpPanic
    | resubmit | release | add | price | broadcast | register | sendError | registerError | timedOut
    | receiptCame => exact .inl rfl

end EthTask

namespace System

open EthTask

variable {s : System} {event : SystemEvent} {n : ℕ}

/-- The nonce of the `send_transaction` call an event starts. -/
def sends (s : System) : SystemEvent → Option ℕ
  | .task i nowMs answer => s.tasks[i]?.bind fun task => task.sends nowMs answer
  | _ => none

def Succeeding (s : System) (event : SystemEvent) : Prop := s.Meets Succeeds event

instance (s : System) : DecidablePred s.Succeeding
  | .spawn _ | .sync _ => isTrue trivial
  | .task i _ answer => inferInstanceAs (Decidable (∀ task ∈ s.tasks[i]?, task.Succeeds answer))

theorem sends_not_mined (sound : Sound Mined s.mined s) (sending : s.sends event = some n) :
    n ∉ s.mined := by
  intro used
  cases event with
  | spawn | sync => cases sending
  | task i nowMs answer =>
      obtain ⟨task, found, sending⟩ := Option.bind_eq_some_iff.mp sending
      obtain ⟨phase, call⟩ := task
      obtain ⟨msg, fee, count, same⟩ := sends_spec sending
      obtain rfl : phase = .iterating msg fee n count := same
      have holds : heldAt s.tasks i = some n := heldAt_eq found
      have mined := (mem_settled_iff found).mp (sound.valid.spentSettled holds used)
      cases mined

theorem consumed_never_sent (chainId currentNonce : ℕ) (events : List SystemEvent)
    (succeeding : EachStep step Succeeding (new chainId currentNonce) events) :
    EachStep step (fun s event => ∀ n ∈ s.sends event, n ∉ s.mined) (new chainId currentNonce)
      events := by
  let inv : System → Prop := fun s => Sound Mined s.mined s
  have preserves : ∀ s event s', inv s → s.Succeeding event → s.step event = some s' → inv s' := by
    intro s event s' sound met stepped
    have after := sound_step mined_stage sound met stepped
    rw [← (history_step stepped).1] at after
    exact after
  have implies : ∀ s event, inv s → s.Succeeding event → ∀ n ∈ s.sends event, n ∉ s.mined :=
    fun s event sound _ n sending => sends_not_mined sound sending
  exact EachStep.of_invariant preserves implies (sound_new chainId currentNonce) succeeding

/-- A dropped first attempt is replaced and confirmed, and the next task draws the next nonce. -/
theorem replacement_then_next_never_sends_consumed :
    let events := [.spawn sampleMessage, .task 0 0 .ready, .task 0 0 .ready,
      .task 0 0 (.fee (.ok ⟨2, 2⟩)), .task 0 0 .ready, .task 0 0 (.sent (.ok 5)),
      .task 0 0 (.registered (.ok ())), .task 0 0 (.watched false), .task 0 0 .ready,
      .task 0 0 .ready, .task 0 0 (.sent (.ok 6)), .task 0 0 (.registered (.ok ())),
      .task 0 0 (.watched true), .task 0 0 (.receipt (.ok (some true))), .task 0 0 .ready,
      .spawn sampleMessage, .task 1 0 .ready, .task 1 0 .ready, .task 1 0 (.fee (.ok ⟨2, 2⟩)),
      .task 1 0 .ready]
    (runs step (new 1 0) events).map (fun s => (s.mined, heldAt s.tasks 1)) =
      some ({0}, some 1) ∧
    EachStep step (fun s event => ∀ n ∈ s.sends event, n ∉ s.mined) (new 1 0) events := by
  intro events
  have succeeding : EachStep step Succeeding (new 1 0) events := by decide
  exact ⟨by decide, consumed_never_sent 1 0 events succeeding⟩

/-- A transaction that reverts in its block is resubmitted with the same nonce. -/
theorem consumed_sent_after_revert :
    let events := [.spawn sampleMessage, .task 0 0 .ready, .task 0 0 .ready,
      .task 0 0 (.fee (.ok ⟨2, 2⟩)), .task 0 0 .ready, .task 0 0 (.sent (.ok 5)),
      .task 0 0 (.registered (.ok ())), .task 0 0 (.watched true),
      .task 0 0 (.receipt (.ok (some false))), .task 0 0 .ready]
    (runs step (new 1 0) events).map (fun s => (s.mined, s.sends (.task 0 0 .ready))) =
      some ({0}, some 0) ∧
    ¬ EachStep step (fun s event => ∀ n ∈ s.sends event, n ∉ s.mined) (new 1 0)
      (events ++ [.task 0 0 .ready]) := by
  decide

end System

end Bulkmail.Ethereum
