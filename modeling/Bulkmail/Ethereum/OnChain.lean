import Bulkmail.Ethereum.NonceWindow

/-! # What the chain executes

The whole `Sender<Eth>` with the account it sends from.  Whatever it has handed to the node
may be executed at any later time, also after a request that failed, a watcher that timed
out or a message that was given up.  The chain takes an account's transactions in the order
of their nonces, one for each, and may take blocks back.  The account may be used from
elsewhere too.
-/

namespace Bulkmail.Ethereum

open Library Sender

/-- A transaction handed to the node for an accepted message. -/
structure Broadcast where
  id : ℕ
  tx : TxEip1559
  deriving DecidableEq, Repr

structure OnChain where
  sender : EthSender
  broadcast : List Broadcast
  /-- The account's nonce to begin with. -/
  start : ℕ
  /-- What the chain has executed from the account, `none` where it came from elsewhere. -/
  executed : List (Option Broadcast)

inductive OnChainEvent where
  | sender (event : EthSenderEvent)
  | executes (k : ℕ)
  | executesOther
  | reorganizes (depth : ℕ)

namespace EthSender

/-- The transaction of the `send_transaction` call that a task starts in this step. -/
def submits (s : EthSender) : EthSenderEvent → Option Broadcast
  | .task i nowMs .ready =>
      match s.runLoop.tasks[i]? with
      | some ⟨id, .running (.iterating msg fee nonce _)⟩ =>
          if msg.isExpired nowMs = some false then
            (buildTransaction s.chainId msg fee nonce).map (⟨id, ·⟩)
          else none
      | _ => none
  | _ => none

end EthSender

namespace OnChain

def new (chainId currentNonce start : ℕ) : OnChain := ⟨.new chainId currentNonce, [], start, []⟩

def step (s : OnChain) : OnChainEvent → Option OnChain
  | .sender event =>
      (s.sender.step event).map fun sender =>
        { s with sender, broadcast := s.broadcast ++ (s.sender.submits event).toList }
  | .executes k =>
      s.broadcast[k]?.bind fun broadcast =>
        if broadcast.tx.nonce = s.start + s.executed.length then
          some { s with executed := s.executed ++ [some broadcast] }
        else none
  | .executesOther => some { s with executed := s.executed ++ [none] }
  | .reorganizes depth => some { s with executed := s.executed.rdrop depth }

def Reachable (s : OnChain) : Prop :=
  ∃ chainId currentNonce start events, runs step (new chainId currentNonce start) events = some s

end OnChain

theorem buildTransaction_spec {chainId nonce : ℕ} {msg other : Message} {fee : EthFeeParams}
    {tx : TxEip1559} (built : buildTransaction chainId msg fee nonce = some tx)
    (same : msg.content = other.content) :
    tx.nonce = nonce ∧ buildTransaction chainId other fee nonce = some tx := by
  have content : buildTransaction chainId msg fee nonce =
      buildTransaction chainId other fee nonce := by
    change buildTransaction chainId msg.content fee nonce =
      buildTransaction chainId other.content fee nonce
    rw [same]
  obtain ⟨total, -, rfl⟩ := Option.map_eq_some_iff.mp built
  exact ⟨rfl, content ▸ built⟩

/-! ## One nonce for each message -/

namespace EthTask

variable {chainId nowMs : ℕ} {nonces nonces' : NonceState} {task next : EthTask}
variable {answer : EthAnswer}

def Settles : Exit → Prop
  | .requeued _ _ => False
  | _ => True

/-- The message is not on its way back to the queue. -/
def Keeps : EthPhase → Prop
  | .releasing _ (.addMessage _) | .adding _ => False
  | .releasing _ (.exit exit) | .finished exit => Settles exit
  | _ => True

/-- A step that does not put the message back and, unless it is over then, leaves it its
    nonce. -/
structure StaysWith (phase next : EthPhase) : Prop where
  keeps : Keeps next
  token : ∀ n, phase.heldToken = some n →
    next.heldToken = some n ∨ ∃ exit, next = .finished exit

theorem staysWith_finished {phase : EthPhase} {exit : Exit} (settles : Settles exit) :
    StaysWith phase (.finished exit) where
  keeps := settles
  token _ _ := .inr ⟨exit, rfl⟩

theorem staysWith_resumed_sending {msg : Message} {fee : EthFeeParams} {nonce count : ℕ}
    {result : Except Error (SendOutcome TxHash)} {phase : EthPhase}
    (resumed : Phase.Resumed nowMs (.sending msg fee nonce count) (.outcome result) phase) :
    StaysWith (.sending msg fee nonce count) phase where
  keeps := by
    have unconfirmed : ∀ txId : TxHash,
        Keeps (Phase.handleUnconfirmed ⟨msg, txId, fee, nonce, count⟩) := by
      intro txId
      simp only [Phase.handleUnconfirmed]
      split <;> trivial
    cases resumed with
    | sendFailed | sendConfirmed => trivial
    | sendDropped | sendReverted => exact unconfirmed _
  token n holds := by
    cases holds
    exact .inl (Phase.heldToken_resumed_sending resumed)

theorem staysWith_advanced (counted : task.WellCounted) (kept : Keeps task.phase)
    (advanced : Advanced chainId nowMs nonces task answer next nonces') :
    StaysWith task.phase next.phase := by
  cases advanced with
  | start spec =>
      cases spec with
      | startPanic | startExpired => exact staysWith_finished trivial
      | started => exact ⟨trivial, fun _ holds => by cases holds⟩
  | drawPanic | bumpPanic | confirm => exact staysWith_finished trivial
  | draw _ spec =>
      cases spec with
      | drawPanic => exact staysWith_finished trivial
      | drawn => exact ⟨trivial, fun _ holds => by cases holds⟩
  | @iterate msg fee nonce count call next spec =>
      cases spec with
      | loopPanic => exact staysWith_finished trivial
      | loopExpired => exact ⟨trivial, fun _ holds => .inl holds⟩
      | sent =>
          cases enterSend_eq chainId ⟨.sending msg fee nonce count, .entry⟩ with
          | inl entered =>
              rw [entered]
              exact ⟨trivial, fun _ holds => .inl holds⟩
          | inr panics =>
              rw [panics]
              exact staysWith_finished trivial
  | strategyReturns => exact absurd rfl (counted.call _)
  | strategyReleases guard => exact (not_strategyReleases counted guard).elim
  | release spec =>
      cases spec with
      | released => exact staysWith_finished kept
      | releasedToAdd => exact kept.elim
  | add => exact kept.elim
  | price spec =>
      cases spec with
      | priced | feeFailed => exact ⟨trivial, fun _ holds => .inl holds⟩
  | resubmit | broadcast | register | watch => exact ⟨trivial, fun _ holds => .inl holds⟩
  | sendError spec | registerError spec | timedOut spec | receiptCame spec =>
      exact staysWith_resumed_sending spec

end EthTask

/-! ## What a step does to the messages -/

namespace EthSender

variable {s s' : EthSender} {event : EthSenderEvent}

/-- Where no task puts its message back, a step brings one task on, spawns one or leaves those
    that run as they are. -/
inductive Flow (before after : RunLoop EthFeeParams ℕ TxHash) : Prop where
  | still (finished : ∀ id ∈ before.finished, id ∈ after.finished)
      (tasks : ∀ (i id : ℕ) (phase : EthPhase), after.tasks[i]? = some ⟨id, .running phase⟩ ↔
        before.tasks[i]? = some ⟨id, .running phase⟩)
  | spawns {id : ℕ} {msg : Message} (finished : after.finished = before.finished)
      (tasks : after.tasks = before.tasks ++ [⟨id, .running (.starting msg)⟩])
  | proceeds {i id : ℕ} {phase next : EthPhase}
      (found : before.tasks[i]? = some ⟨id, .running phase⟩)
      (stays : EthTask.StaysWith phase next) (moved : after = before.proceed i id next)

variable {before after : RunLoop EthFeeParams ℕ TxHash}

/-- Nothing of a running task is changed where none puts its message back. -/
theorem Retires.running_iff {tasks tasks' : List (SpawnedTask EthFeeParams ℕ TxHash)}
    (retires : Retires tasks tasks')
    (kept : ∀ {i id : ℕ} {phase}, tasks[i]? = some ⟨id, .running phase⟩ → EthTask.Keeps phase)
    (j id : ℕ) (phase : EthPhase) :
    tasks'[j]? = some ⟨id, .running phase⟩ ↔ tasks[j]? = some ⟨id, .running phase⟩ := by
  constructor
  · exact retires.running
  · intro found
    cases retires with
    | none => exact found
    | @one i id' before after there ended adding =>
        have other : i ≠ j := by
          rintro rfl
          obtain ⟨rfl, rfl⟩ := SpawnedTask.mk.inj (Option.some.inj (there.symm.trans found))
          obtain ⟨msg, rfl⟩ := adding phase rfl
          exact kept found
        rwa [List.getElem?_set_ne other]

theorem finished_stepped (moved : RunLoop.Stepped before after) :
    ∀ id ∈ before.finished, id ∈ after.finished := by
  cases moved with
  | callNotifies | taskNotifies =>
      intro id member
      unfold RunLoop.notifyOne
      split <;> exact member
  | finishes => exact fun _ => List.mem_append_left _
  | calls | callPushes | permitGranted | permitPolled | pops | findsEmpty | consumes | parks
  | wakes | dropAcquire | dropLock | dropWait | synced | resumes | requeues | taskReturns =>
      exact fun _ member => member

theorem finished_pops {id : ℕ} {msg : Message} (moved : RunLoop.Stepped before after)
    (spawned : after.tasks = before.tasks ++ [⟨id, .running (.starting msg)⟩]) :
    after.finished = before.finished := by
  have longer := congrArg List.length spawned
  cases moved with
  | pops => rfl
  | callNotifies | taskNotifies => simp [RunLoop.tasks_notifyOne] at longer
  | calls | callPushes | permitGranted | permitPolled | findsEmpty | consumes | parks | wakes
  | dropAcquire | dropLock | dropWait | synced | resumes | finishes | requeues | taskReturns =>
      simp at longer

theorem flow_step (reached : Reachable s)
    (kept : ∀ {i id : ℕ} {phase}, s.runLoop.tasks[i]? = some ⟨id, .running phase⟩ →
      EthTask.Keeps phase)
    (stepped : s.step event = some s') : Flow s.runLoop s'.runLoop := by
  cases step_spec stepped with
  | loop moved retires => exact .still (finished_stepped moved) (retires.running_iff kept)
  | pops moved spawned => exact .spawns (finished_pops moved spawned) spawned
  | synced moved same =>
      exact .still (finished_stepped moved) fun _ _ _ => by rw [same]
  | task _ found there moved | quoted found there _ _ moved =>
      have stays := EthTask.staysWith_advanced (reached.counted found there) (kept found)
        (EthTask.advance_spec moved)
      exact .proceeds found stays rfl
  | @quotePanic i id msg nonce priority base found =>
      have stays : EthTask.StaysWith (.feeParams msg nonce priority) (.finished .panicked) :=
        EthTask.staysWith_finished trivial
      exact .proceeds found stays rfl
  | readsEstimate | records | blends => exact .still (fun _ => id) fun _ _ _ => Iff.rfl

theorem chainId_step (stepped : s.step event = some s') : s'.chainId = s.chainId := by
  cases step_spec stepped <;> rfl

theorem messages_step {id : ℕ} {msg : Message} (stepped : s.step event = some s')
    (accepted : s.runLoop.messages[id]? = some msg) : s'.runLoop.messages[id]? = some msg := by
  cases runLoop_step (step_spec stepped) with
  | inl same => rw [same, accepted]
  | inr moved => exact RunLoop.messages_stepped moved accepted

/-- A step of a task as the loop sees it, where the message is not put back. -/
theorem proceed_cases (runLoop : RunLoop EthFeeParams ℕ TxHash) (i id : ℕ) {next : EthPhase}
    (kept : EthTask.Keeps next) :
    ∃ stage, ((stage = .running next ∧ ∀ exit, next ≠ .finished exit) ∨
        stage = .returning ∧ id ∈ (runLoop.proceed i id next).finished) ∧
      (runLoop.proceed i id next).tasks = runLoop.tasks.set i ⟨id, stage⟩ ∧
      ∀ other ∈ runLoop.finished, other ∈ (runLoop.proceed i id next).finished := by
  cases next with
  | finished exit =>
      cases exit with
      | requeued => exact kept.elim
      | confirmed | failed | exhausted | abandoned | panicked =>
          exact ⟨.returning, .inr ⟨rfl, List.mem_append_right _ (List.mem_singleton_self id)⟩, rfl,
            fun _ => List.mem_append_left _⟩
  | starting | nextToken | feeParams | iterating | sending | confirming | retrying | releasing
  | adding => exact ⟨_, .inl ⟨rfl, by simp⟩, rfl, fun _ member => member⟩

theorem submits_spec {broadcast : Broadcast} (submitted : s.submits event = some broadcast) :
    ∃ (i : ℕ) (msg : Message) (fee : EthFeeParams) (count : ℕ),
      s.runLoop.tasks[i]? =
        some ⟨broadcast.id, .running (.iterating msg fee broadcast.tx.nonce count)⟩ ∧
      buildTransaction s.chainId msg fee broadcast.tx.nonce = some broadcast.tx := by
  unfold submits at submitted
  split at submitted
  · split at submitted
    · rename_i i nowMs _ id msg fee nonce count found
      obtain ⟨-, sends⟩ := Option.ite_none_right_eq_some.mp submitted
      obtain ⟨tx, built, rfl⟩ := Option.map_eq_some_iff.mp sends
      obtain ⟨rfl, -⟩ := buildTransaction_spec built rfl
      exact ⟨i, msg, fee, count, found, built⟩
    · cases submitted
  · cases submitted

end EthSender

namespace OnChain

open EthSender EthTask

variable {s t : OnChain} {event : OnChainEvent}
variable {runLoop runLoop' : RunLoop EthFeeParams ℕ TxHash} {broadcast : List Broadcast}

/-- Whatever was sent for a message was sent by its one task, with the nonce it holds. -/
structure Sent (runLoop : RunLoop EthFeeParams ℕ TxHash) (broadcast : List Broadcast) : Prop where
  kept : ∀ {i id : ℕ} {phase}, runLoop.tasks[i]? = some ⟨id, .running phase⟩ → Keeps phase
  by_task : ∀ b ∈ broadcast, b.id ∈ runLoop.finished ∨ ∃ (i : ℕ) (phase : EthPhase),
    runLoop.tasks[i]? = some ⟨b.id, .running phase⟩ ∧ phase.heldToken = some b.tx.nonce

theorem sent_proceed {i id : ℕ} {phase next : EthPhase} (sent : Sent runLoop broadcast)
    (found : runLoop.tasks[i]? = some ⟨id, .running phase⟩) (stays : StaysWith phase next) :
    Sent (runLoop.proceed i id next) broadcast := by
  obtain ⟨stage, outcome, tasks, finished⟩ := proceed_cases runLoop i id stays.keeps
  have inside := (List.getElem?_eq_some_iff.mp found).1
  constructor
  · intro j id' phase' there
    rw [tasks] at there
    by_cases here : i = j
    · subst here
      rw [List.getElem?_set_self inside] at there
      obtain ⟨rfl, -⟩ | ⟨rfl, -⟩ := outcome
      · cases there
        exact stays.keeps
      · cases there
    · exact sent.kept ((List.getElem?_set_ne here).symm.trans there)
  · intro b member
    obtain done | ⟨j, phase', there, holds⟩ := sent.by_task b member
    · exact .inl (finished b.id done)
    · by_cases here : i = j
      · subst here
        cases found.symm.trans there
        obtain ⟨rfl, unfinished⟩ | ⟨rfl, done⟩ := outcome
        · obtain still | ⟨exit, ended⟩ := stays.token _ holds
          · exact .inr ⟨i, next, tasks ▸ List.getElem?_set_self inside, still⟩
          · exact absurd ended (unfinished exit)
        · exact .inl done
      · exact .inr ⟨j, phase', tasks ▸ (List.getElem?_set_ne here).trans there, holds⟩

theorem sent_flow (sent : Sent runLoop broadcast) (flow : Flow runLoop runLoop') :
    Sent runLoop' broadcast := by
  cases flow with
  | still finished tasks =>
      constructor
      · intro i id phase found
        exact sent.kept ((tasks i id phase).mp found)
      · intro b member
        cases sent.by_task b member with
        | inl done => exact .inl (finished b.id done)
        | inr working =>
            obtain ⟨i, phase, found, holds⟩ := working
            exact .inr ⟨i, phase, (tasks i b.id phase).mpr found, holds⟩
  | spawns finished tasks =>
      constructor
      · intro i id phase found
        rw [tasks] at found
        obtain before | ⟨-, last⟩ := getElem?_append_one found
        · exact sent.kept before
        · cases last
          trivial
      · intro b member
        rw [finished, tasks]
        cases sent.by_task b member with
        | inl done => exact .inl done
        | inr working =>
            obtain ⟨i, phase, found, holds⟩ := working
            exact .inr ⟨i, phase, getElem?_append_of_some found _, holds⟩
  | proceeds found stays moved =>
      rw [moved]
      exact sent_proceed sent found stays

/-- What a task has sent before, it has sent with the nonce it holds now. -/
theorem Sent.nonce_eq {i n : ℕ} {phase : EthPhase} {b : Broadcast}
    (sent : Sent runLoop broadcast) (custody : RunLoop.Custody runLoop) (member : b ∈ broadcast)
    (found : runLoop.tasks[i]? = some ⟨b.id, .running phase⟩) (holds : phase.heldToken = some n) :
    b.tx.nonce = n := by
  obtain done | ⟨j, phase', there, same⟩ := sent.by_task b member
  · exact absurd done (custody.not_mem_finished found)
  · obtain rfl := custody.running_unique found there
    cases found.symm.trans there
    exact Option.some.inj (same.symm.trans holds)

/-! ## The chain -/

/-- The transactions of one message have one nonce and are built from it; the chain has
    executed some of those sent, each at its nonce. -/
structure Accounted (s : OnChain) : Prop where
  reached : s.sender.Reachable
  sent : Sent s.sender.runLoop s.broadcast
  single : ∀ b ∈ s.broadcast, ∀ b' ∈ s.broadcast, b.id = b'.id → b.tx.nonce = b'.tx.nonce
  built : ∀ b ∈ s.broadcast, ∃ msg fee, s.sender.runLoop.messages[b.id]? = some msg ∧
    buildTransaction s.sender.chainId msg fee b.tx.nonce = some b.tx
  placed : ∀ (k : ℕ) b, s.executed[k]? = some (some b) →
    b ∈ s.broadcast ∧ b.tx.nonce = s.start + k

theorem accounted_new (chainId currentNonce start : ℕ) :
    Accounted (new chainId currentNonce start) where
  reached := ⟨chainId, currentNonce, [], rfl⟩
  sent := {
    kept := fun found => by cases found
    by_task := fun _ member => by cases member }
  single _ member := by cases member
  built _ member := by cases member
  placed _ _ found := by cases found

/-- A transaction that is handed to the node joins those of its message. -/
theorem accounted_submits {event : EthSenderEvent} (accounted : Accounted s) :
    Accounted { s with broadcast := s.broadcast ++ (s.sender.submits event).toList } := by
  cases submitted : s.sender.submits event with
  | none =>
      rw [Option.toList_none, List.append_nil]
      exact accounted
  | some last =>
      rw [Option.toList_some]
      obtain ⟨i, msg, fee, count, found, tx⟩ := submits_spec submitted
      have custody := accounted.reached.custody
      have nonce : ∀ b ∈ s.broadcast ++ [last], b.id = last.id → b.tx.nonce = last.tx.nonce := by
        intro b member same
        cases List.mem_append.mp member with
        | inl before =>
            rw [← same] at found
            exact accounted.sent.nonce_eq custody before found rfl
        | inr new => rw [List.mem_singleton.mp new]
      constructor
      · exact accounted.reached
      · refine { accounted.sent with by_task := ?_ }
        refine List.forall_mem_append.mpr ⟨accounted.sent.by_task, List.forall_mem_singleton.mpr ?_⟩
        exact .inr ⟨i, _, found, rfl⟩
      · intro b member b' member' same
        cases List.mem_append.mp member with
        | inl before =>
            cases List.mem_append.mp member' with
            | inl before' => exact accounted.single b before b' before' same
            | inr new =>
                obtain rfl := List.mem_singleton.mp new
                exact nonce b member same
        | inr new =>
            obtain rfl := List.mem_singleton.mp new
            exact (nonce b' member' same.symm).symm
      · refine List.forall_mem_append.mpr ⟨accounted.built, List.forall_mem_singleton.mpr ?_⟩
        have faithful := accounted.reached.runLoop RunLoop.faithful_new RunLoop.faithful_step
        obtain ⟨accepted, here, bears⟩ := faithful.carried found
        have same := bears msg (List.mem_singleton_self msg)
        exact ⟨accepted, fee, here, (buildTransaction_spec tx same).2⟩
      · intro k b there
        obtain ⟨member, place⟩ := accounted.placed k b there
        exact ⟨List.mem_append_left _ member, place⟩

theorem accounted_step (accounted : Accounted s) (stepped : s.step event = some t) :
    Accounted t := by
  cases event with
  | sender event =>
      obtain ⟨sender, moved, rfl⟩ := Option.map_eq_some_iff.mp stepped
      have submitted := @accounted_submits s event accounted
      exact {
        reached := accounted.reached.step moved
        sent := sent_flow submitted.sent (flow_step accounted.reached accounted.sent.kept moved)
        single := submitted.single
        built := fun b member => by
          obtain ⟨msg, fee, accepted, built⟩ := submitted.built b member
          exact ⟨msg, fee, messages_step moved accepted, (chainId_step moved).symm ▸ built⟩
        placed := submitted.placed }
  | executes k =>
      obtain ⟨b, found, executes⟩ := Option.bind_eq_some_iff.mp stepped
      obtain ⟨next, appended⟩ := Option.ite_none_right_eq_some.mp executes
      cases appended
      refine { accounted with placed := fun j other there => ?_ }
      obtain before | ⟨rfl, last⟩ := getElem?_append_one there
      · exact accounted.placed j other before
      · cases last
        exact ⟨List.mem_of_getElem? found, next⟩
  | executesOther =>
      cases stepped
      refine { accounted with placed := fun j other there => ?_ }
      obtain before | ⟨-, last⟩ := getElem?_append_one there
      · exact accounted.placed j other before
      · cases last
  | reorganizes depth =>
      cases stepped
      refine { accounted with placed := fun j other there => ?_ }
      rw [List.rdrop, List.getElem?_take] at there
      exact accounted.placed j other (Option.ite_none_right_eq_some.mp there).2

theorem Reachable.accounted (reached : Reachable s) : Accounted s := by
  obtain ⟨chainId, currentNonce, start, events, run⟩ := reached
  exact runs_invariant (fun _ _ _ => accounted_step) (accounted_new chainId currentNonce start) run

/-- Of the transactions of one message the chain holds one at most, whatever became of the
    requests.  What it holds was built from the message that was accepted, and takes the place
    its nonce says. -/
theorem executed_at_most_once (reached : Reachable s) :
    (∀ (k k' : ℕ) b b', s.executed[k]? = some (some b) → s.executed[k']? = some (some b') →
      b.id = b'.id → k = k') ∧
    ∀ (k : ℕ) b, s.executed[k]? = some (some b) → b.tx.nonce = s.start + k ∧
      ∃ msg fee, s.sender.runLoop.messages[b.id]? = some msg ∧
        buildTransaction s.sender.chainId msg fee b.tx.nonce = some b.tx := by
  have accounted := reached.accounted
  constructor
  · intro k k' b b' found found' same
    obtain ⟨member, place⟩ := accounted.placed k b found
    obtain ⟨member', place'⟩ := accounted.placed k' b' found'
    have nonces := accounted.single b member b' member' same
    omega
  · intro k b found
    obtain ⟨member, place⟩ := accounted.placed k b found
    exact ⟨place, accounted.built b member⟩

/-- A transaction that is taken for dropped is replaced; the replacement is executed first, and
    after a reorganization the transaction itself. -/
theorem executed_once_after_replacement :
    let sender : List EthSenderEvent := EthSender.sends 0 ++ [.readsEstimate 0, .quotes 0 0,
      .task 0 0 .ready, .task 0 0 (.sent (.ok 7)), .task 0 0 (.registered (.ok ())),
      .task 0 0 (.watched false), .task 0 0 .ready, .task 0 0 .ready]
    let events := sender.map .sender ++
      [.executesOther, .executes 1, .reorganizes 1, .executes 0]
    ∃ s, runs step (new 1 3 2) events = some s ∧
      s.broadcast.map (fun b => (b.id, b.tx.nonce)) = [(0, 3), (0, 3)] ∧
      s.executed.map (Option.map (·.id)) = [none, some 0] ∧
      (∀ (k k' : ℕ) b b', s.executed[k]? = some (some b) → s.executed[k']? = some (some b') →
        b.id = b'.id → k = k') ∧
      ∀ (k : ℕ) b, s.executed[k]? = some (some b) → b.tx.nonce = s.start + k ∧
        ∃ msg fee, s.sender.runLoop.messages[b.id]? = some msg ∧
          buildTransaction s.sender.chainId msg fee b.tx.nonce = some b.tx := by
  intro sender events
  have shown : (runs step (new 1 3 2) events).map
      (fun s => (s.broadcast.map fun b => (b.id, b.tx.nonce),
        s.executed.map (Option.map (·.id)))) =
      some ([(0, 3), (0, 3)], [none, some 0]) := by decide +kernel
  obtain ⟨s, ran, state⟩ := Option.map_eq_some_iff.mp shown
  obtain ⟨sent, executed⟩ := Prod.mk.inj state
  exact ⟨s, ran, sent, executed, executed_at_most_once ⟨1, 3, 2, events, ran⟩⟩

end OnChain

end Bulkmail.Ethereum
