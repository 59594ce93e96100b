import Bulkmail.Ethereum.Consumed

/-! # One nonce, released once

A single run of `process_message`, with a journal of the nonce it was given, the nonces
it has sent with and those it has passed to `mark_nonce_available`.  The other tasks are
the environment: they decide which state of the nonce manager each step finds.  A task
that is confirmed never gives its nonce back, and every other end gives it back once,
except an arithmetic panic, which ends the task where it stands.
-/

namespace Bulkmail.Ethereum

open Library Sender

namespace EthTask

/-- The nonce `next()` returns in this step. -/
def draws (nonces : NonceState) (task : EthTask) : EthAnswer → Option ℕ
  | .ready =>
      match task.phase with
      | .nextToken _ _ => nonces.getNextAvailableNonce.map (·.1)
      | _ => none
  | _ => none

/-- The nonces passed to `mark_nonce_available` in this step, by the sender or the strategy. -/
def releases (task : EthTask) : EthAnswer → List ℕ
  | .ready =>
      match task.phase, task.call with
      | .releasing nonce _, _ => [nonce]
      | .retrying _ _, .returning _ => []
      | .retrying _ pending, _ =>
          if !pending.msg.canRetry ∨ maxReplacements ≤ pending.replacementCount then
            [pending.replayToken]
          else []
      | _, _ => []
  | _ => []

/-- The nonce for which `handle_confirmed` completes in this step. -/
def confirms (task : EthTask) : EthAnswer → Finset ℕ
  | .ready =>
      match task.phase with
      | .confirming pending => {pending.replayToken}
      | _ => ∅
  | _ => ∅

variable {chainId nowMs : ℕ} {nonces nonces' : NonceState} {task next : EthTask}
variable {answer : EthAnswer}

/-- The strategy's own releases never happen. -/
theorem releases_retrying {msg : Message} {pending : PendingTransaction EthFeeParams ℕ TxHash}
    {call : EthCall} (counted : WellCounted ⟨.retrying msg pending, call⟩) :
    releases ⟨.retrying msg pending, call⟩ .ready = [] := by
  have kept : ¬ (!pending.msg.canRetry ∨ maxReplacements ≤ pending.replacementCount) := by
    intro guard
    exact not_strategyReleases counted (by simpa using guard)
  cases call with
  | returning decision => rfl
  | entry | registering | watching | fetchingReceipt => exact if_neg kept

/-- What a step does to the nonce manager is what is drawn, confirmed or released in it. -/
theorem nonces_advanced (counted : task.WellCounted)
    (advanced : Advanced chainId nowMs nonces task answer next nonces') :
    (∃ nonce, task.confirms answer = {nonce} ∧ nonces' = nonces.updateCurrentNonce nonce) ∨
    task.confirms answer = ∅ ∧
      ((∃ nonce, task.draws nonces answer = some nonce ∧
        nonces.getNextAvailableNonce = some (nonce, nonces')) ∨
      nonces' = (task.releases answer).foldl NonceState.markNonceAvailable nonces) := by
  cases advanced with
  | draw drawn => exact .inr ⟨rfl, .inl ⟨_, by simp [draws, drawn], drawn⟩⟩
  | confirm => exact .inl ⟨_, rfl, rfl⟩
  | strategyReturns => exact absurd rfl (counted.call _)
  | strategyReleases guard => exact (not_strategyReleases counted guard).elim
  | bumpPanic | resubmit => exact .inr ⟨rfl, .inr (by rw [releases_retrying counted]; rfl)⟩
  | start | drawPanic | iterate | release | add | price | broadcast | register | watch | sendError
  | registerError | timedOut | receiptCame => exact .inr ⟨rfl, .inr rfl⟩

end EthTask

structure Journal where
  task : EthTask
  drawn : Option ℕ
  sent : List ℕ
  released : List ℕ
  deriving DecidableEq

/-- One step of the task, with the time and the nonce manager it meets. -/
structure Turn where
  nowMs : ℕ
  nonces : NonceState
  answer : EthAnswer

namespace Journal

def start (msg : Message) : Journal := ⟨.start msg, none, [], []⟩

def step (chainId : ℕ) (j : Journal) (turn : Turn) : Option Journal :=
  (j.task.advance chainId turn.nowMs turn.nonces turn.answer).map fun (next, _) =>
    { task := next
      drawn := j.drawn.or (j.task.draws turn.nonces turn.answer)
      sent := j.sent ++ (j.task.sends turn.nowMs turn.answer).toList
      released := j.released ++ j.task.releases turn.answer }

/-- Only the drawn nonce is sent with; at the end it is released once, or not at all when
    the transaction was confirmed. -/
def Disciplined (j : Journal) : Prop :=
  (∀ nonce ∈ j.sent, j.drawn = some nonce) ∧
    ∀ exit nonce, j.task.phase = .finished exit → j.drawn = some nonce →
      j.released = if exit = .confirmed then [] else [nonce]

/-- Nothing the task computes in this step overflows while it has a nonce, or as it gets one. -/
def NoOverflow (chainId : ℕ) (j : Journal) (turn : Turn) : Prop :=
  match j.task.phase with
  | .nextToken msg startMs =>
      turn.nonces.getNextAvailableNonce = none ∨ msg.effectivePriority startMs ≠ none
  | .iterating msg fee nonce _ =>
      msg.isExpired turn.nowMs = some true ∨
        msg.isExpired turn.nowMs = some false ∧ buildTransaction chainId msg fee nonce ≠ none
  | .retrying _ pending => bumpFee pending.fee ≠ none
  | _ => True

instance (chainId : ℕ) (j : Journal) (turn : Turn) : Decidable (j.NoOverflow chainId turn) := by
  unfold NoOverflow
  split <;> infer_instance

/-! ## The journal follows the task -/

open EthTask

variable {chainId : ℕ} {j j' : Journal} {turn : Turn} {nonces : NonceState} {next : EthTask}

/-- What the journal says at each point of the task. -/
def Tracked (task : EthTask) (drawn : Option ℕ) (released : List ℕ) : Prop :=
  match task.phase with
  | .starting _ | .nextToken _ _ => drawn = none ∧ released = []
  | .feeParams _ nonce _ | .iterating _ _ nonce _ | .sending _ _ nonce _ =>
      drawn = some nonce ∧ released = []
  | .confirming pending | .retrying _ pending =>
      drawn = some pending.replayToken ∧ released = []
  | .releasing nonce after => drawn = some nonce ∧ released = [] ∧ after ≠ .exit .confirmed
  | .adding _ => ∃ nonce, drawn = some nonce ∧ released = [nonce]
  | .finished _ => True

structure Sound (j : Journal) : Prop where
  counted : j.task.WellCounted
  sent : ∀ nonce ∈ j.sent, j.drawn = some nonce
  tracked : Tracked j.task j.drawn j.released

theorem step_cases (stepped : j.step chainId turn = some j') :
    ∃ next nonces', Advanced chainId turn.nowMs turn.nonces j.task turn.answer next nonces' ∧
      j' = { task := next
             drawn := j.drawn.or (j.task.draws turn.nonces turn.answer)
             sent := j.sent ++ (j.task.sends turn.nowMs turn.answer).toList
             released := j.released ++ j.task.releases turn.answer } := by
  obtain ⟨⟨next, nonces'⟩, advanced, same⟩ := Option.map_eq_some_iff.mp stepped
  exact ⟨next, nonces', advance_spec advanced, same.symm⟩

theorem sent_step (sound : Sound j) (stepped : j.step chainId turn = some j') :
    ∀ nonce ∈ j'.sent, j'.drawn = some nonce := by
  obtain ⟨next, nonces', -, rfl⟩ := step_cases stepped
  intro nonce member
  have before : j.drawn = some nonce := by
    cases List.mem_append.mp member with
    | inl earlier => exact sound.sent nonce earlier
    | inr now =>
        obtain ⟨msg, fee, count, same⟩ := sends_spec (Option.mem_toList.mp now)
        have tracked := sound.tracked
        simp only [Tracked, same] at tracked
        exact tracked.1
  simp [before]

theorem tracked_resumed_sending {msg : Message} {fee : EthFeeParams} {nonce count nowMs : ℕ}
    {result : Except Error (SendOutcome TxHash)} {phase : EthPhase} {drawn : Option ℕ}
    {released : List ℕ} (tracked : drawn = some nonce ∧ released = [])
    (resumed : Phase.Resumed nowMs (.sending msg fee nonce count) (.outcome result) phase) :
    Tracked ⟨phase, .entry⟩ drawn released := by
  apply resumed.after_sending
  · exact fun exit unconfirmed => ⟨tracked.1, tracked.2, by simpa using unconfirmed⟩
  · exact fun _ => tracked
  · exact fun _ => tracked

theorem tracked_enterSend {task : EthTask} {drawn : Option ℕ} {released : List ℕ}
    (tracked : Tracked task drawn released) :
    Tracked (task.enterSend chainId) drawn released := by
  cases enterSend_eq chainId task with
  | inl entered =>
      rw [entered]
      exact tracked
  | inr panics =>
      rw [panics]
      trivial

theorem tracked_step (sound : Sound j) (stepped : j.step chainId turn = some j') :
    Tracked j'.task j'.drawn j'.released := by
  obtain ⟨next, nonces', advanced, rfl⟩ := step_cases stepped
  obtain ⟨task, drawn, sent, released⟩ := j
  obtain ⟨nowMs, nonces, answer⟩ := turn
  obtain ⟨counted, -, tracked⟩ := sound
  simp only at *
  cases advanced with
  | start spec =>
      cases spec with
      | startPanic | startExpired => trivial
      | started => simpa [Tracked, draws, releases] using tracked
  | drawPanic | confirm | bumpPanic => trivial
  | draw drawn_ spec =>
      cases spec with
      | drawPanic => trivial
      | drawn =>
          obtain ⟨rfl, rfl⟩ : drawn = none ∧ released = [] := tracked
          simp [Tracked, draws, releases, drawn_]
  | iterate spec =>
      apply tracked_enterSend
      cases spec with
      | loopPanic => trivial
      | loopExpired | sent => simpa [Tracked, draws, releases] using tracked
  | strategyReturns => exact absurd rfl (counted.call _)
  | strategyReleases guard => exact (not_strategyReleases counted guard).elim
  | resubmit => simpa [Tracked, draws, releases_retrying counted] using tracked
  | release spec =>
      cases spec with
      | released => trivial
      | releasedToAdd =>
          obtain ⟨rfl, rfl, -⟩ := tracked
          exact ⟨_, rfl, rfl⟩
  | add spec => cases spec <;> trivial
  | price spec =>
      cases spec with
      | priced | feeFailed => simpa [Tracked, draws, releases] using tracked
  | broadcast | register | watch => simpa [Tracked, draws, releases] using tracked
  | sendError spec | registerError spec | timedOut spec | receiptCame spec =>
      refine tracked_resumed_sending ?_ spec
      simpa [Tracked, draws, releases] using tracked

theorem sound_start (msg : Message) : Sound (start msg) where
  counted := wellCounted_start msg
  sent := by simp [start]
  tracked := ⟨rfl, rfl⟩

theorem sound_step (sound : Sound j) (stepped : j.step chainId turn = some j') : Sound j' where
  counted := by
    obtain ⟨next, nonces', advanced, rfl⟩ := step_cases stepped
    exact wellCounted_advanced sound.counted advanced
  sent := sent_step sound stepped
  tracked := tracked_step sound stepped

/-! ## Where the discipline breaks -/

theorem disciplined_of_unfinished (sent : ∀ nonce ∈ j.sent, j.drawn = some nonce)
    (unfinished : ∀ exit, j.task.phase ≠ .finished exit) : j.Disciplined :=
  ⟨sent, fun exit _ finished => absurd finished (unfinished exit)⟩

theorem disciplined_of_undrawn (sent : ∀ nonce ∈ j.sent, j.drawn = some nonce)
    (undrawn : j.drawn = none) : j.Disciplined := by
  refine ⟨sent, fun exit nonce _ drawn => ?_⟩
  cases undrawn.symm.trans drawn

theorem unfinished_resumed_sending {msg : Message} {fee : EthFeeParams} {nonce count nowMs : ℕ}
    {result : Except Error (SendOutcome TxHash)} {phase : EthPhase}
    (resumed : Phase.Resumed nowMs (.sending msg fee nonce count) (.outcome result) phase)
    (exit : Exit) : phase ≠ .finished exit := by
  apply resumed.after_sending
  · simp
  · simp
  · simp

/-- A task that ends with its nonce unreleased is disciplined only if it was confirmed. -/
theorem disciplined_finished_iff {exit : Exit} {nonce : ℕ}
    (sent : ∀ nonce ∈ j.sent, j.drawn = some nonce) (finished : j.task.phase = .finished exit)
    (drawn : j.drawn = some nonce) :
    j.Disciplined ↔ j.released = if exit = .confirmed then [] else [nonce] := by
  constructor
  · exact fun disciplined => disciplined.2 exit nonce finished drawn
  · intro released
    refine ⟨sent, fun other given same there => ?_⟩
    obtain rfl : exit = other := by simpa using finished.symm.trans same
    obtain rfl : nonce = given := by simpa using drawn.symm.trans there
    exact released

theorem disciplined_step_iff (sound : Sound j) (stepped : j.step chainId turn = some j') :
    j'.Disciplined ↔ j.NoOverflow chainId turn := by
  have sent := sent_step sound stepped
  obtain ⟨next, nonces', advanced, rfl⟩ := step_cases stepped
  obtain ⟨task, drawn, earlier, released⟩ := j
  obtain ⟨nowMs, nonces, answer⟩ := turn
  obtain ⟨counted, -, tracked⟩ := sound
  simp only at *
  have unfinished : ∀ {met : Prop}, met → (∀ exit, next.phase ≠ .finished exit) →
      (Disciplined { task := next
                     drawn := drawn.or (task.draws nonces answer)
                     sent := earlier ++ (task.sends nowMs answer).toList
                     released := released ++ task.releases answer } ↔ met) := by
    intro met holds going
    exact ⟨fun _ => holds, fun _ => disciplined_of_unfinished sent going⟩
  cases advanced with
  | start spec =>
      obtain ⟨rfl, rfl⟩ : drawn = none ∧ released = [] := tracked
      exact ⟨fun _ => trivial, fun _ => disciplined_of_undrawn sent rfl⟩
  | drawPanic overflow =>
      obtain ⟨rfl, rfl⟩ : drawn = none ∧ released = [] := tracked
      refine ⟨fun _ => .inl overflow, fun _ => disciplined_of_undrawn sent ?_⟩
      simp [draws, overflow]
  | @draw msg startMs call next nonce assigned drawn_ spec =>
      cases spec with
      | drawPanic panic =>
          obtain ⟨rfl, rfl⟩ : drawn = none ∧ released = [] := tracked
          have holds : draws nonces ⟨.nextToken msg startMs, call⟩ .ready = some nonce := by
            simp [draws, drawn_]
          rw [disciplined_finished_iff sent rfl holds]
          simp [releases, NoOverflow, drawn_, panic]
      | drawn known => exact unfinished (.inr (by simp [known])) (by simp)
  | @iterate msg fee nonce count call next spec =>
      obtain ⟨rfl, rfl⟩ := tracked
      cases spec with
      | loopPanic panic =>
          rw [disciplined_finished_iff sent rfl rfl]
          simp [releases, NoOverflow, panic]
      | loopExpired expired => exact unfinished (.inl expired) (by simp [enterSend])
      | sent live =>
          cases built : buildTransaction chainId msg fee nonce with
          | none =>
              have panics : enterSend chainId ⟨.sending msg fee nonce count, .entry⟩ =
                  panicked := by
                simp [enterSend, built]
              have ended := congrArg EthTask.phase panics
              rw [disciplined_finished_iff sent ended rfl]
              simp [releases, NoOverflow, live, built]
          | some tx =>
              refine unfinished (.inr ⟨live, by simp [built]⟩) ?_
              simp [enterSend, built]
  | confirm =>
      obtain ⟨rfl, rfl⟩ := tracked
      rw [disciplined_finished_iff sent rfl rfl]
      simp [releases, NoOverflow]
  | bumpPanic overflow =>
      obtain ⟨rfl, rfl⟩ := tracked
      rw [disciplined_finished_iff sent rfl rfl]
      simp [releases_retrying counted, NoOverflow, overflow]
  | strategyReturns => exact absurd rfl (counted.call _)
  | strategyReleases guard => exact (not_strategyReleases counted guard).elim
  | resubmit raised => exact unfinished (by simp [NoOverflow, raised]) (by simp)
  | release spec =>
      cases spec with
      | released =>
          obtain ⟨rfl, rfl, other⟩ := tracked
          rw [disciplined_finished_iff sent rfl rfl]
          have ended : ∀ {exit : Exit}, AfterRelease.exit exit ≠ .exit .confirmed →
              exit ≠ .confirmed := fun differ same => differ (congrArg _ same)
          simp [releases, NoOverflow, ended other]
      | releasedToAdd => exact unfinished trivial (by simp)
  | add spec =>
      obtain ⟨nonce, rfl, rfl⟩ := tracked
      cases spec with
      | addPanic | added =>
          rw [disciplined_finished_iff sent rfl rfl]
          simp [releases, NoOverflow]
  | price spec => cases spec <;> exact unfinished trivial (by simp)
  | broadcast | register | watch => exact unfinished trivial (by simp)
  | sendError spec | registerError spec | timedOut spec | receiptCame spec =>
      exact unfinished trivial (unfinished_resumed_sending spec)

/-- Along every run of `process_message`, the nonce is handled with discipline exactly when
    no arithmetic overflows while the task has it. -/
theorem disciplined_throughout_iff {msg : Message} {last : Journal} {turns : List Turn}
    (ran : runs (step chainId) (start msg) turns = some last) :
    Throughout (step chainId) Disciplined (start msg) turns ↔
      EachStep (step chainId) (NoOverflow chainId) (start msg) turns := by
  refine throughout_iff_eachStep (fun j turn j' sound stepped => sound_step sound stepped) ?_
    (sound_start msg) ?_ ran
  · exact fun j turn j' sound _ stepped => disciplined_step_iff sound stepped
  · exact disciplined_of_undrawn (sound_start msg).sent rfl

/-- A replaced transaction that is confirmed, and the nonce is never released. -/
theorem disciplined_through_replacement :
    let turn (answer : EthAnswer) : Turn := ⟨0, .new 0, answer⟩
    let turns := [turn .ready, turn .ready, turn (.fee (.ok ⟨2, 10⟩)), turn .ready,
      turn (.sent (.ok 5)), turn (.registered (.ok ())), turn (.watched false), turn .ready,
      turn .ready, turn (.sent (.ok 6)), turn (.registered (.ok ())), turn (.watched true),
      turn (.receipt (.ok (some true))), turn .ready]
    runs (step 1) (start sampleMessage) turns =
      some ⟨⟨.finished .confirmed, .entry⟩, some 0, [0, 0], []⟩ ∧
    Throughout (step 1) Disciplined (start sampleMessage) turns := by
  intro turn turns
  have ran : runs (step 1) (start sampleMessage) turns =
      some ⟨⟨.finished .confirmed, .entry⟩, some 0, [0, 0], []⟩ := by decide +kernel
  exact ⟨ran, (disciplined_throughout_iff ran).mpr (by decide +kernel)⟩

/-- A message so old that its age overflows the priority: the task panics with the nonce
    drawn and never released. -/
theorem leaked_by_panic :
    let msg := { sampleMessage with priority := 100 }
    let late : Turn := ⟨8_589_934_590_000, .new 0, .ready⟩
    runs (step 1) (start msg) [late, late] =
      some ⟨⟨.finished .panicked, .entry⟩, some 0, [], []⟩ ∧
    ¬ Throughout (step 1) Disciplined (start msg) [late, late] := by
  intro msg late
  have ran : runs (step 1) (start msg) [late, late] =
      some ⟨⟨.finished .panicked, .entry⟩, some 0, [], []⟩ := by decide +kernel
  refine ⟨ran, fun disciplined => ?_⟩
  have released := (disciplined.last ran).2 .panicked 0 rfl rfl
  simp at released

end Journal

end Bulkmail.Ethereum
