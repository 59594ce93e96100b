import Bulkmail.Ethereum.System
import Bulkmail.Library.Leases

/-! # Nonces as leases

The tasks' use of the nonce manager is an instance of exclusive leases: a task's nonce
is its lease, a nonce is taken while the manager covers it, and a release gives it
back.  `EthRetryStrategy` would release a nonce a second time when it abandons or
requeues, but the sender never asks it once a message's budget is gone, so it only
ever resubmits.
-/

namespace Bulkmail.Ethereum

open Library Sender

namespace EthTask

variable {chainId nowMs : ℕ} {nonces nonces' : NonceState} {task next : EthTask}
variable {answer : EthAnswer} {n : ℕ}

def heldNonce (task : EthTask) : Option ℕ := task.phase.heldToken

/-- The counts keep the strategy from ever returning with the nonce released. -/
structure WellCounted (task : EthTask) : Prop where
  phase : task.phase.WellCounted
  call : ∀ decision, task.call ≠ .returning decision

theorem wellCounted_start (msg : Message) : (start msg).WellCounted :=
  ⟨trivial, fun _ same => by cases same⟩

theorem wellCounted_panicked : panicked.WellCounted :=
  ⟨trivial, fun _ same => by cases same⟩

theorem wellCounted_enterSend (counted : task.WellCounted) :
    (task.enterSend chainId).WellCounted := by
  cases enterSend_eq chainId task with
  | inl entered =>
      rw [entered]
      exact counted
  | inr panics =>
      rw [panics]
      exact wellCounted_panicked

/-- Whatever the strategy would release for is ruled out by the counts. -/
theorem not_strategyReleases {msg : Message} {pending : PendingTransaction EthFeeParams ℕ TxHash}
    {call : EthCall} (counted : WellCounted ⟨.retrying msg pending, call⟩)
    (guard : pending.msg.canRetry = false ∨ maxReplacements ≤ pending.replacementCount) :
    False := by
  obtain ⟨fewer, -, fewerReplacements⟩ := counted.phase
  cases guard with
  | inl spent =>
      have : ¬ pending.msg.retryCount < Message.maxRetries := of_decide_eq_false spent
      omega
  | inr many =>
      simp only [maxReplacements, Message.maxRetries] at many fewer
      omega

theorem wellCounted_advanced (counted : task.WellCounted)
    (advanced : Advanced chainId nowMs nonces task answer next nonces') : next.WellCounted := by
  have resumed : ∀ {phase given}, Phase.Resumed nowMs task.phase given phase →
      WellCounted ⟨phase, .entry⟩ := fun spec =>
    ⟨Phase.wellCounted_resumed counted.phase spec, fun _ same => by cases same⟩
  cases advanced with
  | start spec | draw _ spec | strategyReturns spec | release spec | add spec | price spec
  | sendError spec | registerError spec | timedOut spec | receiptCame spec => exact resumed spec
  | iterate spec => exact wellCounted_enterSend (resumed spec)
  | drawPanic | bumpPanic => exact wellCounted_panicked
  | confirm => exact ⟨trivial, fun _ same => by cases same⟩
  | resubmit => exact resumed .resubmitted
  | strategyReleases guard => exact (not_strategyReleases counted guard).elim
  | broadcast | register | watch => exact ⟨counted.phase, fun _ same => by cases same⟩

/-- A task's step as its lease sees it. -/
inductive Move (task : EthTask) (nonces : NonceState) (next : EthTask) (nonces' : NonceState) :
    Prop where
  | keep : next.heldNonce = task.heldNonce → nonces' = nonces → Move task nonces next nonces'
  | leave : next.heldNonce = none → (∀ m, nonces.Covers m → nonces'.Covers m) →
      Move task nonces next nonces'
  | draw (n : ℕ) : nonces.getNextAvailableNonce = some (n, nonces') → next.heldNonce = some n →
      Move task nonces next nonces'
  | give (n : ℕ) (after : AfterRelease) : task.phase = .releasing n after → next.heldNonce = none →
      nonces' = nonces.markNonceAvailable n → Move task nonces next nonces'

theorem heldNonce_enterSend :
    (task.enterSend chainId).heldNonce = none ∨
      (task.enterSend chainId).heldNonce = task.heldNonce := by
  cases enterSend_eq chainId task with
  | inl entered => exact .inr (congrArg heldNonce entered)
  | inr panics => exact .inl (congrArg heldNonce panics)

theorem move_of_heldNonce
    (held : next.heldNonce = none ∨ next.heldNonce = task.heldNonce) :
    Move task nonces next nonces := by
  cases held with
  | inl gone => exact .leave gone fun _ covered => covered
  | inr same => exact .keep same rfl

theorem move_advanced (counted : task.WellCounted)
    (advanced : Advanced chainId nowMs nonces task answer next nonces') :
    Move task nonces next nonces' := by
  cases advanced with
  | start spec => cases spec <;> exact .keep rfl rfl
  | drawPanic => exact .keep rfl rfl
  | draw drawn spec =>
      cases spec with
      | drawPanic =>
          refine .leave rfl fun m covered => ?_
          exact (NonceState.covers_assigned drawn).mpr (.inr covered)
      | drawn => exact .draw _ drawn rfl
  | iterate spec =>
      apply move_of_heldNonce
      cases spec with
      | loopPanic => exact .inl rfl
      | loopExpired => exact .inr rfl
      | sent => exact heldNonce_enterSend
  | confirm => exact .leave rfl fun _ covered => NonceState.covers_updateCurrentNonce covered
  | strategyReturns => exact absurd rfl (counted.call _)
  | strategyReleases guard => exact (not_strategyReleases counted guard).elim
  | bumpPanic => exact .leave rfl fun _ covered => covered
  | resubmit => exact .keep rfl rfl
  | release spec => cases spec <;> exact .give _ _ rfl rfl rfl
  | add spec => cases spec <;> exact .keep rfl rfl
  | price spec => cases spec <;> exact .keep rfl rfl
  | broadcast | register | watch => exact .keep rfl rfl
  | sendError spec | registerError spec | timedOut spec | receiptCame spec =>
      exact .keep (Phase.heldToken_resumed_sending spec) rfl

/-- A part of a task's life in which it has spent its nonce: once there it stays there
    as long as it holds the nonce, and it is entered where the nonce is marked. -/
structure Stage (stage : EthTask → Prop) (marks : EthTask → EthAnswer → Finset ℕ)
    (cond : EthTask → EthAnswer → Prop) : Prop where
  closed : ∀ {chainId nowMs nonces task answer next nonces'},
    Advanced chainId nowMs nonces task answer next nonces' → cond task answer → stage task →
    next.heldNonce = none ∨ stage next
  notGiving : ∀ {task n after}, stage task → task.phase ≠ .releasing n after
  marked : ∀ {chainId nowMs nonces task answer next nonces'},
    Advanced chainId nowMs nonces task answer next nonces' →
    marks task answer = ∅ ∨ ∃ n, marks task answer = {n} ∧ task.heldNonce = some n ∧
      next.heldNonce = some n ∧ stage next ∧ nonces' = nonces

end EthTask

/-! ## The system as leases -/

section Leases

open EthTask

variable {stage : EthTask → Prop} {marks : EthTask → EthAnswer → Finset ℕ}
variable {cond : EthTask → EthAnswer → Prop} {spent : Finset ℕ}
variable {nonces nonces' : NonceState} {tasks : List EthTask} {task next : EthTask}
variable {chainId nowMs i : ℕ} {answer : EthAnswer}

def heldAt (tasks : List EthTask) (i : ℕ) : Option ℕ := tasks[i]?.bind heldNonce

def leases (stage : EthTask → Prop) (spent : Finset ℕ) (nonces : NonceState)
    (tasks : List EthTask) : Leases ℕ ℕ where
  holder := heldAt tasks
  taken := {n | nonces.Covers n}
  spent := spent
  settled := {i | ∃ task, tasks[i]? = some task ∧ stage task}

theorem heldAt_eq (found : tasks[i]? = some task) : heldAt tasks i = task.heldNonce := by
  simp [heldAt, found]

theorem mem_settled_iff (found : tasks[i]? = some task) :
    i ∈ (leases stage spent nonces tasks).settled ↔ stage task := by
  simp [leases, found]

theorem getElem?_set_of_found (next : EthTask) (found : tasks[i]? = some task) :
    (tasks.set i next)[i]? = some next := by
  have inside := (List.getElem?_eq_some_iff.mp found).1
  simp [inside]

theorem others_set (spent' : Finset ℕ) (nonces' : NonceState) :
    Leases.Others i (leases stage spent nonces tasks)
      (leases stage spent' nonces' (tasks.set i next)) := by
  constructor
  · intro j other
    simp [leases, heldAt, List.getElem?_set_ne (Ne.symm other)]
  · intro j other settled
    obtain ⟨task, found, staged⟩ := settled
    exact ⟨task, by simpa [List.getElem?_set_ne (Ne.symm other)] using found, staged⟩

theorem leases_spawn (msg : Message) :
    Leases.Step (leases stage spent nonces tasks)
      (leases stage spent nonces (tasks ++ [.start msg])) := by
  have elsewhere : ∀ j, j ≠ tasks.length → (tasks ++ [.start msg])[j]? = tasks[j]? := by
    intro j other
    rcases Nat.lt_or_gt_of_ne other with inside | outside
    · exact List.getElem?_append_left inside
    · simpa [outside.le] using outside
  refine .keep tasks.length ⟨fun j other => ?_, fun j other settled => ?_⟩ ?_ (fun settled => ?_)
    (fun _ covered => covered) rfl
  · simp [leases, heldAt, elsewhere j other]
  · obtain ⟨task, found, staged⟩ := settled
    exact ⟨task, (elsewhere j other).trans found, staged⟩
  · simp [leases, heldAt, heldNonce, start, Phase.heldToken]
  · obtain ⟨task, found, -⟩ := settled
    simp at found

theorem leases_sync (onChainNonce : ℕ) :
    Leases.Step (leases stage spent nonces tasks)
      (leases stage spent (nonces.updateCurrentNonce onChainNonce) tasks) :=
  .keep 0 ⟨fun _ _ => rfl, fun _ _ settled => settled⟩ rfl (fun settled => settled)
    (fun _ covered => NonceState.covers_updateCurrentNonce covered) rfl

/-- A step of one task is a step of the leases. -/
theorem leases_advanced (spec : Stage stage marks cond) (counted : task.WellCounted)
    (found : tasks[i]? = some task) (met : cond task answer)
    (advanced : Advanced chainId nowMs nonces task answer next nonces') :
    Leases.Step (leases stage spent nonces tasks)
      (leases stage (marks task answer ∪ spent) nonces' (tasks.set i next)) := by
  have after := getElem?_set_of_found next found
  have held := heldAt_eq found
  have held' := heldAt_eq after
  cases spec.marked advanced with
  | inr marked =>
      obtain ⟨n, marks, holding, holds, staged, rfl⟩ := marked
      refine .spend i n (others_set _ _) (held.trans holding) (held'.trans holds)
        ((mem_settled_iff after).mpr staged) (fun _ covered => covered) ?_
      simp [leases, marks]
  | inl unmarked =>
      have same : (leases stage (marks task answer ∪ spent) nonces' (tasks.set i next)).spent =
          (leases stage spent nonces tasks).spent := by
        simp [leases, unmarked]
      cases move_advanced counted advanced with
      | keep kept unchanged =>
          subst unchanged
          by_cases gone : next.heldNonce = none
          · exact .leave i (others_set _ _) (held'.trans gone) (fun _ covered => covered) same
          · refine .keep i (others_set _ _) (held'.trans (kept.trans held.symm))
              (fun settled => ?_) (fun _ covered => covered) same
            have staged := (mem_settled_iff found).mp settled
            have later := (spec.closed advanced met staged).resolve_left gone
            exact (mem_settled_iff after).mpr later
      | leave gone grown => exact .leave i (others_set _ _) (held'.trans gone) grown same
      | draw n drawn holds =>
          refine .draw i n (others_set _ _) (NonceState.getNextAvailableNonce_spec drawn).1
            (held'.trans holds) (fun m covered => ?_) same
          exact (NonceState.covers_assigned drawn).mpr covered
      | give n after_ releasing gone unchanged =>
          subst unchanged
          have holding : task.heldNonce = some n := by simp [heldNonce, releasing, Phase.heldToken]
          refine .give i n (others_set _ _) (held.trans holding) (fun settled => ?_)
            (held'.trans gone) (fun m covered => ?_) same
          · exact spec.notGiving ((mem_settled_iff found).mp settled) releasing
          · exact NonceState.covers_markNonceAvailable covered.1 covered.2

end Leases

namespace System

open EthTask

variable {stage : EthTask → Prop} {marks : EthTask → EthAnswer → Finset ℕ}
variable {cond : EthTask → EthAnswer → Prop} {spent : Finset ℕ}
variable {s s' : System} {event : SystemEvent}

structure Sound (stage : EthTask → Prop) (spent : Finset ℕ) (s : System) : Prop where
  counted : ∀ task ∈ s.tasks, task.WellCounted
  valid : (leases stage spent s.nonces s.tasks).Valid

/-- The nonces an event marks. -/
def marked (marks : EthTask → EthAnswer → Finset ℕ) (s : System) : SystemEvent → Finset ℕ
  | .task i _ answer => s.tasks[i]?.elim ∅ (marks · answer)
  | _ => ∅

/-- What a stage asks of the answers, asked of a whole event. -/
def Meets (cond : EthTask → EthAnswer → Prop) (s : System) : SystemEvent → Prop
  | .task i _ answer => ∀ task ∈ s.tasks[i]?, cond task answer
  | _ => True

/-- The history grows by what the event marks. -/
theorem history_step (stepped : s.step event = some s') :
    s'.mined = s.marked minedBy event ∪ s.mined ∧
      s'.confirmed = s.marked confirmedBy event ∪ s.confirmed := by
  cases event with
  | spawn | sync =>
      cases stepped
      simp [marked]
  | task i nowMs answer =>
      obtain ⟨task, next, nonces, found, -, rfl⟩ := task_step_spec stepped
      simp [marked, found]

theorem sound_new (chainId currentNonce : ℕ) : Sound stage ∅ (new chainId currentNonce) where
  counted := by simp [new]
  valid := by
    constructor
    · intro i n holds
      simp [leases, heldAt, new] at holds
    · intro i j n holds
      simp [leases, heldAt, new] at holds
    · intro n used
      simp [leases] at used
    · intro i n holds
      simp [leases, heldAt, new] at holds

theorem counted_step (counted : ∀ task ∈ s.tasks, task.WellCounted)
    (stepped : s.step event = some s') : ∀ task ∈ s'.tasks, task.WellCounted := by
  cases event with
  | spawn msg =>
      cases stepped
      intro task member
      cases List.mem_append.mp member with
      | inl before => exact counted task before
      | inr fresh => exact List.mem_singleton.mp fresh ▸ wellCounted_start msg
  | sync =>
      cases stepped
      exact counted
  | task i nowMs answer =>
      obtain ⟨task, next, nonces, found, advanced, rfl⟩ := task_step_spec stepped
      intro other member
      cases List.mem_or_eq_of_mem_set member with
      | inl before => exact counted other before
      | inr same =>
          have moved := counted task (List.mem_of_getElem? found)
          exact same ▸ wellCounted_advanced moved (advance_spec advanced)

theorem sound_step (spec : Stage stage marks cond) (sound : Sound stage spent s)
    (met : s.Meets cond event) (stepped : s.step event = some s') :
    Sound stage (s.marked marks event ∪ spent) s' := by
  refine ⟨counted_step sound.counted stepped, ?_⟩
  cases event with
  | spawn msg =>
      cases stepped
      simpa [marked] using sound.valid.step (leases_spawn msg)
  | sync onChainNonce =>
      cases stepped
      simpa [marked] using sound.valid.step (leases_sync onChainNonce)
  | task i nowMs answer =>
      obtain ⟨task, next, nonces, found, advanced, rfl⟩ := task_step_spec stepped
      have counted := sound.counted task (List.mem_of_getElem? found)
      have advanced := advance_spec advanced
      have marked : s.marked marks (.task i nowMs answer) = marks task answer := by
        simp [System.marked, found]
      rw [marked]
      exact sound.valid.step (leases_advanced spec counted found (met task found) advanced)

/-! ## Nonce exclusivity -/

/-- From the outcome `Confirmed` on, a task only has its confirmation to report. -/
def Confirming (task : EthTask) : Prop := ∃ pending, task.phase = .confirming pending

theorem confirming_stage : Stage Confirming confirmedBy fun _ _ => True where
  closed advanced _ staged := by
    obtain ⟨pending, same⟩ := staged
    cases advanced with
    | confirm => exact .inl rfl
    | price spec => cases same; cases spec
    | start | drawPanic | draw | iterate | strategyReturns | strategyReleases | bumpPanic | resubmit
    | release | add | broadcast | register | watch | sendError | registerError | timedOut
    | receiptCame => cases same
  notGiving staged releasing := by
    obtain ⟨pending, same⟩ := staged
    cases same.symm.trans releasing
  marked advanced := by
    cases advanced with
    | @receiptCame msg fee nonce count hash result next spec =>
        match result, spec with
        | .ok (some true), .sendConfirmed => exact .inr ⟨nonce, rfl, rfl, rfl, ⟨_, rfl⟩, rfl⟩
        | .ok (some false), _ | .ok none, _ | .error _, _ => exact .inl rfl
    | start | drawPanic | draw | iterate | confirm | strategyReturns | strategyReleases | bumpPanic
    | resubmit | release | add | price | broadcast | register | watch | sendError | registerError
    | timedOut => exact .inl rfl

theorem Reachable.sound (reached : Reachable s) : Sound Confirming s.confirmed s := by
  obtain ⟨chainId, currentNonce, events, ran⟩ := reached
  let inv : System → Prop := fun s => Sound Confirming s.confirmed s
  have preserves : ∀ s event s', inv s → s.step event = some s' → inv s' := by
    intro s event s' sound stepped
    have met : s.Meets (fun _ _ => True) event := by cases event <;> simp [Meets]
    have after := sound_step confirming_stage sound met stepped
    rw [← (history_step stepped).2] at after
    exact after
  have final : inv s := runs_invariant preserves (sound_new chainId currentNonce) ran
  exact final

theorem nonce_exclusivity (reached : Reachable s) :
    (∀ i j n, heldAt s.tasks i = some n → heldAt s.tasks j = some n → i = j) ∧
    ∀ n nonces, s.nonces.getNextAvailableNonce = some (n, nonces) → n ∉ s.confirmed := by
  have valid := reached.sound.valid
  refine ⟨fun i j n holds holds' => valid.exclusive holds holds', fun n nonces drawn used => ?_⟩
  exact (NonceState.getNextAvailableNonce_spec drawn).1 (valid.spentTaken used)

/-- One task confirms nonce 0 while another holds nonce 1. -/
theorem nonce_exclusivity_of_two :
    let events := [.spawn sampleMessage, .spawn sampleMessage, .task 0 0 .ready, .task 1 0 .ready,
      .task 0 0 .ready, .task 1 0 .ready, .task 0 0 (.fee (.ok ⟨2, 2⟩)), .task 0 0 .ready,
      .task 0 0 (.sent (.ok 5)), .task 0 0 (.registered (.ok ())), .task 0 0 (.watched true),
      .task 0 0 (.receipt (.ok (some true))), .sync 0]
    ∃ s, runs step (new 1 0) events = some s ∧
      (heldAt s.tasks 0, heldAt s.tasks 1, s.confirmed) = (some 0, some 1, {0}) ∧
      (∀ i j n, heldAt s.tasks i = some n → heldAt s.tasks j = some n → i = j) ∧
      ∀ n nonces, s.nonces.getNextAvailableNonce = some (n, nonces) → n ∉ s.confirmed := by
  intro events
  have shown : (runs step (new 1 0) events).map
      (fun s => (heldAt s.tasks 0, heldAt s.tasks 1, s.confirmed)) =
      some (some 0, some 1, {0}) := by decide
  obtain ⟨s, ran, holding⟩ := Option.map_eq_some_iff.mp shown
  exact ⟨s, ran, holding, nonce_exclusivity ⟨1, 0, events, ran⟩⟩

end System

end Bulkmail.Ethereum
