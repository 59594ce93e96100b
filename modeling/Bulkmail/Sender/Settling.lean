import Bulkmail.Sender.Custody
import Bulkmail.Sender.Submissions
import Bulkmail.Sender.Wakeups

/-! # Every schedule settles

Left to itself, with no new message and no new block, a sender comes to rest: whatever
the adapter answers and however the threads take turns, only so many steps are left, and
where no step is left every accepted message is settled.  The bound is a potential in
which a queued message pays for the task that takes it, a retry for the next round, a
`notify_one` for one more turn of the loop and a wait for the lock for its grant.
-/

namespace Bulkmail.Sender

open Library

variable {Fee Token TxId : Type}

/-! ## The steps that are left -/

def Message.work (msg : Message) : ℕ := 40 * msg.retriesLeft + 30

/-- A requeued message is in the queue again and its task has yet to notify and return. -/
def Exit.work : Exit → ℕ
  | .requeued msg _ => msg.work + 8
  | _ => 1

def Phase.work : Phase Fee Token TxId → ℕ
  | .starting msg => 40 * msg.retriesLeft + 26
  | .nextToken msg _ => 40 * msg.retriesLeft + 25
  | .feeParams msg _ _ => 40 * msg.retriesLeft + 24
  | .iterating msg _ _ _ => 40 * msg.retriesLeft + 23
  | .sending msg _ _ _ => 40 * msg.retriesLeft + 22
  | .retrying msg _ => 40 * msg.retriesLeft + 42
  | .releasing _ (.addMessage msg) => 40 * msg.retriesLeft + 41
  | .adding msg => 40 * msg.retriesLeft + 40
  | .releasing _ (.exit exit) => exit.work + 1
  | .finished exit => exit.work
  | .confirming _ => 2

def SpawnedTask.work (task : SpawnedTask Fee Token TxId) : ℕ :=
  match task.stage with
  | .running phase => phase.work
  | .notifying => 8
  | .returning => 1
  | .ended => 0

def AddCall.work : AddCall → ℕ
  | .locking msg _ => msg.work + 9
  | .notifying => 7
  | .gone => 0

def LoopState.work : LoopState → ℕ
  | .acquiring granted => if granted then 4 else 5
  | .locking => 3
  | .foundEmpty => 1
  | .parked notified => if notified then 6 else 0
  | .syncing => 6
  | .stopped => 0

/-- A stored wake-up is good for one turn of the loop, a free lock for one grant. -/
def storedWork (stored : Bool) : ℕ := 5 * stored.toNat

def lockWork : Option Party → ℕ
  | none => 1
  | some _ => 0

/-- A step that needs nobody outside the sender but those who answer it: no new message,
    no block and no end of the block stream. -/
def RunEvent.internal : RunEvent Fee Token TxId → Bool
  | .addMessage _ _ | .block | .streamClosed => false
  | _ => true

namespace Phase

variable {phase next : Phase Fee Token TxId} {nowMs : ℕ} {answer : Answer Fee Token TxId}

theorem work_handleUnconfirmed (pending : PendingTransaction Fee Token TxId) :
    (handleUnconfirmed pending).work < 40 * pending.msg.retriesLeft + 22 := by
  simp only [handleUnconfirmed]
  split
  · rename_i again
    have spent := Message.retriesLeft_incrementRetry again
    simp only [work]
    omega
  · simp [work, Exit.work]

theorem work_resumed (resumed : Resumed nowMs phase answer next) : next.work < phase.work := by
  cases resumed with
  | @sendDropped msg fee t count txId | @sendReverted msg fee t count txId =>
      exact work_handleUnconfirmed
        (⟨msg, txId, fee, t, count⟩ : PendingTransaction Fee Token TxId)
  | startPanic | startExpired | started | drawPanic | drawn | priced | feeFailed | loopPanic
  | loopExpired | sent | sendFailed | sendConfirmed | confirmed | resubmitted | requeued | abandoned
  | released | releasedToAdd | addPanic | added =>
      simp only [work, Exit.work, Message.work]
      omega

/-- Putting the message back also pays for the lock that becomes free. -/
theorem work_added {msg : Message} (resumed : Resumed nowMs (.adding msg) answer next) :
    next.work + 2 ≤ (adding msg : Phase Fee Token TxId).work := by
  cases resumed with
  | addPanic | added =>
      simp only [work, Exit.work, Message.work]
      omega

end Phase

namespace SpawnedTask

variable (id : ℕ)

@[simp] theorem work_running (phase : Phase Fee Token TxId) :
    work ⟨id, .running phase⟩ = phase.work := rfl

@[simp] theorem work_notifying : work (⟨id, .notifying⟩ : SpawnedTask Fee Token TxId) = 8 := rfl

@[simp] theorem work_returning : work (⟨id, .returning⟩ : SpawnedTask Fee Token TxId) = 1 := rfl

@[simp] theorem work_ended : work (⟨id, .ended⟩ : SpawnedTask Fee Token TxId) = 0 := rfl

end SpawnedTask

@[simp] theorem AddCall.work_locking (msg : Message) (nowMs : ℕ) :
    (AddCall.locking msg nowMs).work = msg.work + 9 := rfl

@[simp] theorem AddCall.work_notifying : AddCall.notifying.work = 7 := rfl

@[simp] theorem AddCall.work_gone : AddCall.gone.work = 0 := rfl

theorem lockWork_le (lock : Option Party) : lockWork lock ≤ 1 := by
  cases lock with
  | none | some => simp [lockWork]

namespace RunLoop

variable {s s' t : RunLoop Fee Token TxId} {event : RunEvent Fee Token TxId}

/-- A bound on the steps the sender has left when nobody adds to its work. -/
def work (s : RunLoop Fee Token TxId) : ℕ :=
  (s.queue.map (·.message.work)).sum + (s.calls.map AddCall.work).sum +
    (s.tasks.map SpawnedTask.work).sum + s.loop.work + storedWork s.stored + lockWork s.lock

theorem work_notifyOne : s.notifyOne.work ≤ s.work + 6 := by
  unfold notifyOne
  split
  · rename_i waiting
    simp only [work, waiting, LoopState.work, if_true, if_false, Bool.false_eq_true]
    omega
  · simp only [work, storedWork, Bool.toNat_true]
    omega

theorem calls_notifyOne : s.notifyOne.calls = s.calls := by
  unfold notifyOne
  split <;> rfl

/-- A task that settles hands what is left of its message to the queue. -/
theorem work_settle {i : ℕ} {task : SpawnedTask Fee Token TxId}
    (found : s.tasks[i]? = some task) (id : ℕ) (exit : Exit) :
    (s.settle i id exit).work + task.work = s.work + exit.work := by
  have notified := sum_map_set_add SpawnedTask.work found ⟨id, .notifying⟩
  have returned := sum_map_set_add SpawnedTask.work found ⟨id, .returning⟩
  cases exit with
  | requeued msg priority =>
      simp only [work, settle, Exit.work, SpawnedTask.work_notifying, List.map_append,
        List.map_cons, List.map_nil, List.sum_append, List.sum_singleton] at notified ⊢
      omega
  | confirmed | failed | exhausted | abandoned | panicked =>
      simp only [work, settle, Exit.work, SpawnedTask.work_returning] at returned ⊢
      omega

theorem work_proceed {i : ℕ} {task : SpawnedTask Fee Token TxId}
    (found : s.tasks[i]? = some task) (id : ℕ) (next : Phase Fee Token TxId) :
    (s.proceed i id next).work + task.work = s.work + next.work := by
  have moved := sum_map_set_add SpawnedTask.work found ⟨id, .running next⟩
  cases next with
  | finished exit => exact work_settle found id exit
  | starting | nextToken | feeParams | iterating | sending | confirming | retrying | releasing
  | adding =>
      simp only [work, proceed, SpawnedTask.work_running] at moved ⊢
      omega

theorem work_step (own : event.internal) (stepped : s.step event = some s') :
    s'.work < s.work := by
  cases event with
  | addMessage | block | streamClosed => cases own
  | callDropped k =>
      simp only [step] at stepped
      split at stepped
      · rename_i msg nowMs found
        cases stepped
        have gone := sum_map_set_add AddCall.work found .gone
        have lock := lockWork_le (s.unlock (.caller k))
        simp only [work, AddCall.work_locking, AddCall.work_gone] at gone ⊢
        omega
      · cases stepped
  | callPushes k =>
      simp only [step] at stepped
      split at stepped
      · rename_i msg nowMs found
        obtain ⟨held, pushed⟩ := Option.ite_none_right_eq_some.mp stepped
        split at pushed
        · cases pushed
          have gone := sum_map_set_add AddCall.work found .gone
          simp only [work, held, lockWork, AddCall.work_locking, AddCall.work_gone] at gone ⊢
          omega
        · cases pushed
          have pushed := sum_map_set_add AddCall.work found .notifying
          simp only [work, held, lockWork, AddCall.work_locking, AddCall.work_notifying,
            List.map_append, List.map_cons, List.map_nil, List.sum_append, List.sum_singleton]
            at pushed ⊢
          omega
      · cases stepped
  | callNotifies k =>
      simp only [step] at stepped
      split at stepped
      · rename_i found
        cases stepped
        have gone := sum_map_set_add AddCall.work found .gone
        have notified := work_notifyOne (s := s)
        simp only [work, calls_notifyOne, AddCall.work_notifying, AddCall.work_gone]
          at gone notified ⊢
        omega
      · cases stepped
  | lockGranted party =>
      obtain ⟨⟨free, -⟩, granted⟩ := Option.ite_none_right_eq_some.mp stepped
      cases granted
      simp [work, free, lockWork]
  | permitGranted =>
      obtain ⟨⟨here, free⟩, granted⟩ := Option.ite_none_right_eq_some.mp stepped
      cases granted
      simp [work, here, LoopState.work]
  | permitPolled =>
      obtain ⟨here, polled⟩ := Option.ite_none_right_eq_some.mp stepped
      cases polled
      simp [work, here, LoopState.work]
  | pops k =>
      obtain ⟨⟨here, held⟩, pops⟩ := Option.ite_none_right_eq_some.mp stepped
      obtain ⟨⟨entry, rest⟩, popped, rfl⟩ := Option.map_eq_some_iff.mp pops
      obtain ⟨found, -, rfl⟩ := popAt_spec popped
      have taken := sum_map_eraseIdx_add (fun entry : Entry => entry.message.work) found
      simp only [work, here, held, lockWork, LoopState.work, Message.work, Phase.work,
        SpawnedTask.work_running, List.map_append, List.map_cons, List.map_nil, List.sum_append,
        List.sum_singleton, Bool.false_eq_true, if_false] at taken ⊢
      omega
  | findsEmpty =>
      obtain ⟨⟨here, held, -⟩, found⟩ := Option.ite_none_right_eq_some.mp stepped
      cases found
      simp only [work, here, held, lockWork, LoopState.work]
      omega
  | polls =>
      obtain ⟨here, polled⟩ := Option.ite_none_right_eq_some.mp stepped
      split at polled
      · rename_i kept
        cases polled
        simp [work, here, kept, storedWork, LoopState.work]
      · cases polled
        simp [work, here, LoopState.work]
  | wakes =>
      obtain ⟨here, woken⟩ := Option.ite_none_right_eq_some.mp stepped
      cases woken
      simp [work, here, LoopState.work]
  | synced ok =>
      obtain ⟨here, resumed⟩ := Option.ite_none_right_eq_some.mp stepped
      cases resumed
      cases ok <;> simp [work, here, LoopState.work]
  | resumed i nowMs answer =>
      simp only [step] at stepped
      split at stepped
      · cases stepped
      · rename_i id phase _ found
        obtain ⟨next, resumed, rfl⟩ := Option.map_eq_some_iff.mp stepped
        have shorter := Phase.work_resumed (Phase.resume_spec resumed)
        have moved := work_proceed found id next
        rw [SpawnedTask.work_running] at moved
        omega
      · cases stepped
  | taskPushes i nowMs =>
      simp only [step] at stepped
      split at stepped
      · rename_i id msg found
        obtain ⟨-, pushed⟩ := Option.ite_none_right_eq_some.mp stepped
        obtain ⟨next, resumed, rfl⟩ := Option.map_eq_some_iff.mp pushed
        have shorter := Phase.work_added (Phase.resume_spec resumed)
        have moved := work_proceed found id next
        rw [SpawnedTask.work_running] at moved
        simp only [work, lockWork] at moved ⊢
        omega
      · cases stepped
  | taskNotifies i =>
      simp only [step] at stepped
      split at stepped
      · rename_i id found
        cases stepped
        have moved := sum_map_set_add SpawnedTask.work found ⟨id, .returning⟩
        have notified := work_notifyOne (s := s)
        simp only [work, tasks_notifyOne, SpawnedTask.work_notifying, SpawnedTask.work_returning]
          at moved notified ⊢
        omega
      · cases stepped
  | taskReturns i =>
      simp only [step] at stepped
      split at stepped
      · rename_i id found
        cases stepped
        have moved := sum_map_set_add SpawnedTask.work found ⟨id, .ended⟩
        simp only [work, SpawnedTask.work_returning, SpawnedTask.work_ended] at moved ⊢
        omega
      · cases stepped

/-! ## Nothing is stuck -/

/-- Whoever has the lock is about to use it, no task is kept beyond its end and a loop that
    sleeps has no wake-up in store. -/
structure Tended (s : RunLoop Fee Token TxId) : Prop where
  holder : ∀ party, s.lock = some party → s.waitsForLock party
  unfinished : ∀ task ∈ s.tasks, ∀ exit, task.stage ≠ .running (.finished exit)
  unstored : s.loop = .parked false → s.stored = false

theorem tended_new : Tended (new : RunLoop Fee Token TxId) where
  holder := by simp [new]
  unfinished := by simp [new]
  unstored := by simp [new]

/-- A step in which at most one party stops waiting, and that one without the lock. -/
theorem holder_moves (mover : Party) (held : ∀ party, s.lock = some party → s.waitsForLock party)
    (lock : ∀ party, s'.lock = some party → s.lock = some party)
    (leaves : s.waitsForLock mover → s'.lock ≠ some mover)
    (loop : mover ≠ .loop → s.loop = .locking → s'.loop = .locking)
    (calls : ∀ k, mover ≠ .caller k → ∀ call, s.calls[k]? = some call → s'.calls[k]? = some call)
    (tasks : ∀ i, mover ≠ .task i → ∀ task, s.tasks[i]? = some task → s'.tasks[i]? = some task) :
    ∀ party, s'.lock = some party → s'.waitsForLock party := by
  intro party has
  have before := held party (lock party has)
  have differs : mover ≠ party := by
    rintro rfl
    exact leaves before has
  cases party with
  | loop =>
      simp only [waitsForLock, decide_eq_true_eq] at before ⊢
      exact loop differs before
  | caller k =>
      simp only [waitsForLock] at before ⊢
      split at before
      · rename_i msg nowMs found
        rw [calls k differs _ found]
      · cases before
  | task i =>
      simp only [waitsForLock] at before ⊢
      split at before
      · rename_i id msg found
        rw [tasks i differs _ found]
      · cases before

/-- A task that goes on is not kept beyond its end, and changes nothing but its own place,
    the queue and the record of finished messages. -/
theorem proceed_eq (i id : ℕ) (next : Phase Fee Token TxId) :
    ∃ queue finished stage, (∀ exit, stage ≠ .running (.finished exit)) ∧
      (∀ phase, stage = .running phase → phase = next) ∧
      s.proceed i id next = { s with queue, finished, tasks := s.tasks.set i ⟨id, stage⟩ } := by
  cases next with
  | finished exit =>
      cases exit with
      | requeued msg priority => exact ⟨_, _, .notifying, by simp, by simp, rfl⟩
      | confirmed | failed | exhausted | abandoned | panicked =>
          exact ⟨_, _, .returning, by simp, by simp, rfl⟩
  | starting | nextToken | feeParams | iterating | sending | confirming | retrying | releasing
  | adding =>
      refine ⟨_, _, .running _, by simp, fun phase same => ?_, rfl⟩
      exact (TaskStage.running.inj same).symm

/-- The loop moves while it does not wait for the lock. -/
theorem tended_loop {loop : LoopState} {freePermits : ℕ} {stored : Bool} (tended : Tended s)
    (elsewhere : s.loop ≠ .locking) (unstored : loop = .parked false → stored = false) :
    Tended { s with loop, freePermits, stored } where
  holder := by
    refine holder_moves (s := s) .loop tended.holder (fun _ => id) (fun waits => ?_) (absurd rfl)
      (fun _ _ _ => id) (fun _ _ _ => id)
    exact absurd (by simpa [waitsForLock] using waits) elsewhere
  unfinished := tended.unfinished
  unstored := unstored

/-- A task moves while it does not wait for the lock, or gives it up. -/
theorem tended_task {i : ℕ} {task next : SpawnedTask Fee Token TxId} {queue : List Entry}
    {finished : List ℕ} {freePermits : ℕ} {lock : Option Party} (tended : Tended s)
    (found : s.tasks[i]? = some task)
    (unlocked : lock = none ∨ lock = s.lock ∧ ∀ msg, task.stage ≠ .running (.adding msg))
    (unfinished : ∀ exit, next.stage ≠ .running (.finished exit)) :
    Tended { s with queue, finished, freePermits, lock, tasks := s.tasks.set i next } where
  holder := by
    refine holder_moves (s := s) (.task i) tended.holder (fun party has => ?_) (fun waits has => ?_)
      (fun _ => id) (fun _ _ _ => id) (fun j differs other there => ?_)
    · cases unlocked with
      | inl free => cases free.symm.trans has
      | inr same => exact same.1.symm.trans has
    · cases unlocked with
      | inl free => cases free.symm.trans has
      | inr same =>
          simp only [waitsForLock, found] at waits
          split at waits
          · rename_i id msg here
            exact same.2 msg (congrArg SpawnedTask.stage (Option.some.inj here))
          · cases waits
    · exact (List.getElem?_set_ne fun same => differs (congrArg _ same)).trans there
  unfinished other member := by
    cases List.mem_or_eq_of_mem_set member with
    | inl before => exact tended.unfinished other before
    | inr same => exact same ▸ unfinished
  unstored := tended.unstored

theorem tended_notifyOne (tended : Tended s) : Tended s.notifyOne := by
  unfold notifyOne
  split
  · rename_i waiting
    exact tended_loop tended (by simp [waiting]) (by simp)
  · rename_i elsewhere
    exact ⟨tended.holder, tended.unfinished, fun here => absurd here elsewhere⟩

/-- A call moves on, and not with the lock. -/
theorem tended_call {k : ℕ} {call next : AddCall} {queue : List Entry} {accepted : ℕ}
    {messages : List Message} {lock : Option Party} (tended : Tended s)
    (found : s.calls[k]? = some call)
    (kept : ∀ party, lock = some party → s.lock = some party)
    (leaves : (∃ msg nowMs, call = .locking msg nowMs) → lock ≠ some (.caller k)) :
    Tended { s with queue, accepted, messages, lock, calls := s.calls.set k next } where
  holder := by
    refine holder_moves (s := s) (.caller k) tended.holder kept (fun waits => ?_) (fun _ => id)
      (fun j differs other there => ?_) (fun _ _ _ => id)
    · simp only [waitsForLock, found] at waits
      split at waits
      · rename_i msg nowMs here
        exact leaves ⟨msg, nowMs, Option.some.inj here⟩
      · cases waits
    · exact (List.getElem?_set_ne fun same => differs (congrArg _ same)).trans there
  unfinished := tended.unfinished
  unstored := tended.unstored

theorem unlock_eq_some {party other : Party} (has : s.unlock party = some other) :
    s.lock = some other ∧ other ≠ party := by
  unfold unlock at has
  split at has
  · cases has
  · rename_i differs
    exact ⟨has, fun same => differs (same ▸ has)⟩

theorem tended_dropNext {loop : LoopState} (outside : loop = .syncing ∨ loop = .stopped)
    (tended : Tended s) (dropped : s.dropNext loop = some s') : Tended s' := by
  have asleep : loop ≠ .parked false := by
    cases outside with
    | inl same | inr same => simp [same]
  unfold dropNext at dropped
  split at dropped
  · rename_i granted here
    cases dropped
    exact tended_loop tended (by simp [here]) fun there => absurd there asleep
  · cases dropped
    refine ⟨?_, tended.unfinished, fun there => absurd there asleep⟩
    exact holder_moves (s := s) .loop tended.holder (fun _ has => (unlock_eq_some has).1)
      (fun _ has => (unlock_eq_some has).2 rfl) (absurd rfl) (fun _ _ _ => id) (fun _ _ _ => id)
  · rename_i notified here
    cases dropped
    exact tended_loop tended (by simp [here]) fun there => absurd there asleep
  · cases dropped

/-- Once the lock is free, nobody has to wait for it. -/
theorem tended_free {loop : LoopState} {freePermits : ℕ} {queue : List Entry}
    {tasks : List (SpawnedTask Fee Token TxId)} (tended : Tended s)
    (unfinished : ∀ task ∈ tasks, task ∈ s.tasks ∨ ∃ id msg, task = ⟨id, .running (.starting msg)⟩)
    (elsewhere : loop ≠ .parked false) :
    Tended { s with queue, tasks, loop, freePermits, lock := none } where
  holder := by simp
  unfinished task member exit := by
    cases unfinished task member with
    | inl before => exact tended.unfinished task before exit
    | inr fresh =>
        obtain ⟨id, msg, rfl⟩ := fresh
        simp
  unstored here := absurd here elsewhere

theorem tended_step (tended : Tended s) (stepped : s.step event = some s') : Tended s' := by
  cases event with
  | addMessage msg nowMs =>
      cases stepped
      refine ⟨?_, tended.unfinished, tended.unstored⟩
      refine holder_moves (s := s) (.caller s.calls.length) tended.holder (fun _ => id)
        (fun waits => ?_) (fun _ => id) (fun k _ call there => ?_) (fun _ _ _ => id)
      · simp [waitsForLock] at waits
      · have inside := (List.getElem?_eq_some_iff.mp there).1
        exact (List.getElem?_append_left inside).trans there
  | callDropped k =>
      simp only [step] at stepped
      split at stepped
      · rename_i msg nowMs found
        cases stepped
        exact tended_call tended found (fun _ has => (unlock_eq_some has).1)
          fun _ has => (unlock_eq_some has).2 rfl
      · cases stepped
  | callPushes k =>
      simp only [step] at stepped
      split at stepped
      · rename_i msg nowMs found
        obtain ⟨-, pushed⟩ := Option.ite_none_right_eq_some.mp stepped
        split at pushed
        · cases pushed
          exact tended_call tended found (by simp) (by simp)
        · cases pushed
          exact tended_call tended found (by simp) (by simp)
      · cases stepped
  | callNotifies k =>
      simp only [step] at stepped
      split at stepped
      · rename_i found
        cases stepped
        rw [← calls_notifyOne] at found ⊢
        exact tended_call (tended_notifyOne tended) found (fun _ => id) (by simp)
      · cases stepped
  | lockGranted party =>
      obtain ⟨⟨-, waits⟩, granted⟩ := Option.ite_none_right_eq_some.mp stepped
      cases granted
      refine ⟨fun other has => ?_, tended.unfinished, tended.unstored⟩
      obtain rfl := Option.some.inj has
      exact waits
  | permitGranted =>
      obtain ⟨⟨here, -⟩, granted⟩ := Option.ite_none_right_eq_some.mp stepped
      cases granted
      exact tended_loop tended (by simp [here]) (by simp)
  | permitPolled =>
      obtain ⟨here, polled⟩ := Option.ite_none_right_eq_some.mp stepped
      cases polled
      exact tended_loop tended (by simp [here]) (by simp)
  | pops k =>
      obtain ⟨-, pops⟩ := Option.ite_none_right_eq_some.mp stepped
      obtain ⟨⟨entry, rest⟩, -, rfl⟩ := Option.map_eq_some_iff.mp pops
      refine tended_free tended (fun task member => ?_) (by simp)
      refine (List.mem_append.mp member).imp_right fun fresh => ?_
      exact ⟨entry.id, entry.message, List.mem_singleton.mp fresh⟩
  | findsEmpty =>
      obtain ⟨-, found⟩ := Option.ite_none_right_eq_some.mp stepped
      cases found
      exact tended_free tended (fun _ => .inl) (by simp)
  | polls =>
      obtain ⟨here, polled⟩ := Option.ite_none_right_eq_some.mp stepped
      split at polled
      · cases polled
        exact tended_loop tended (by simp [here]) (by simp)
      · rename_i none_
        cases polled
        exact tended_loop tended (by simp [here]) fun _ => by simpa using none_
  | wakes =>
      obtain ⟨here, woken⟩ := Option.ite_none_right_eq_some.mp stepped
      cases woken
      exact tended_loop tended (by simp [here]) (by simp)
  | block => exact tended_dropNext (.inl rfl) tended stepped
  | synced ok =>
      obtain ⟨here, resumed⟩ := Option.ite_none_right_eq_some.mp stepped
      cases resumed
      exact tended_loop tended (by simp [here]) (by cases ok <;> simp)
  | streamClosed => exact tended_dropNext (.inr rfl) tended stepped
  | resumed i nowMs answer =>
      simp only [step] at stepped
      split at stepped
      · cases stepped
      · rename_i id phase notAdding found
        obtain ⟨next, -, rfl⟩ := Option.map_eq_some_iff.mp stepped
        obtain ⟨queue, finished, stage, unfinished, -, same⟩ := proceed_eq (s := s) i id next
        rw [same]
        refine tended_task tended found (.inr ⟨rfl, fun msg adding => ?_⟩) unfinished
        cases adding
        exact notAdding _ rfl
      · cases stepped
  | taskPushes i nowMs =>
      simp only [step] at stepped
      split at stepped
      · rename_i id msg found
        obtain ⟨-, pushed⟩ := Option.ite_none_right_eq_some.mp stepped
        obtain ⟨next, -, rfl⟩ := Option.map_eq_some_iff.mp pushed
        obtain ⟨queue, finished, stage, unfinished, -, same⟩ := proceed_eq (s := s) i id next
        rw [same]
        exact tended_task tended found (.inl rfl) unfinished
      · cases stepped
  | taskNotifies i =>
      simp only [step] at stepped
      split at stepped
      · rename_i id found
        cases stepped
        rw [← tasks_notifyOne] at found ⊢
        exact tended_task (tended_notifyOne tended) found (.inr ⟨rfl, by simp⟩) (by simp)
      · cases stepped
  | taskReturns i =>
      simp only [step] at stepped
      split at stepped
      · rename_i id found
        cases stepped
        exact tended_task tended found (.inr ⟨rfl, by simp⟩) (by simp)
      · cases stepped

theorem Reachable.tended (reached : Reachable s) : Tended s := by
  obtain ⟨events, ran⟩ := reached
  exact runs_invariant (fun _ _ _ held stepped => tended_step held stepped) tended_new ran

/-! ## Rest -/

/-- Every awaited component can answer so that the task goes on. -/
theorem exists_resume [Inhabited Token] (phase : Phase Fee Token TxId)
    (unfinished : ∀ exit, phase ≠ .finished exit) :
    ∃ answer next, phase.resume 0 answer = some next := by
  cases phase with
  | finished exit => exact absurd rfl (unfinished exit)
  | starting msg | iterating msg | adding msg =>
      refine ⟨.ready, ?_⟩
      simp only [Phase.resume]
      split <;> exact ⟨_, rfl⟩
  | nextToken msg startMs =>
      refine ⟨.token default, ?_⟩
      simp only [Phase.resume]
      split <;> exact ⟨_, rfl⟩
  | feeParams => exact ⟨.fee (.error .messageExpired), _, rfl⟩
  | sending => exact ⟨.outcome (.error .messageExpired), _, rfl⟩
  | confirming => exact ⟨.ready, _, rfl⟩
  | retrying => exact ⟨.decision .abandon, _, rfl⟩
  | releasing _ after => cases after <;> exact ⟨.ready, _, rfl⟩

/-- A queue that is not empty has an entry to pop. -/
theorem exists_popAt {queue : List Entry} (some_ : queue ≠ []) :
    ∃ k popped, popAt queue k = some popped := by
  have inhabited : queue.toFinset.Nonempty := List.toFinset_nonempty_iff queue |>.mpr some_
  obtain ⟨entry, member, top⟩ := queue.toFinset.exists_max_image Entry.effectivePriority inhabited
  obtain ⟨k, found⟩ := List.mem_iff_getElem?.mp (List.mem_toFinset.mp member)
  have highest : ∀ other ∈ queue, other.effectivePriority ≤ entry.effectivePriority :=
    fun other there => top other (List.mem_toFinset.mpr there)
  exact ⟨k, _, by rw [popAt, found, Option.bind_some, if_pos highest]⟩

/-- None of the sender's own steps is possible. -/
def Still (s : RunLoop Fee Token TxId) : Prop :=
  ∀ event : RunEvent Fee Token TxId, event.internal → s.step event = none

theorem Still.not_isSome (still : Still s) (event : RunEvent Fee Token TxId) (own : event.internal)
    (going : (s.step event).isSome) : False := by
  rw [still event own] at going
  cases going

/-- Whoever has the lock could use it. -/
theorem Still.lock_eq_none (still : Still s) (tended : Tended s) : s.lock = none := by
  cases held : s.lock with
  | none => rfl
  | some party =>
      exfalso
      have waits := tended.holder party held
      cases party with
      | loop =>
          have here : s.loop = .locking := by simpa [waitsForLock] using waits
          by_cases vacant : s.queue = []
          · exact still.not_isSome .findsEmpty rfl (by simp [step, here, held, vacant])
          · obtain ⟨k, popped, pops⟩ := exists_popAt vacant
            exact still.not_isSome (.pops k) rfl (by simp [step, here, held, pops])
      | caller k =>
          simp only [waitsForLock] at waits
          split at waits
          · rename_i msg nowMs found
            have none_ := still (.callPushes k) rfl
            simp only [step, found, held, if_true] at none_
            split at none_ <;> cases none_
          · cases waits
      | task i =>
          simp only [waitsForLock] at waits
          split at waits
          · rename_i id msg found
            have none_ := still (.taskPushes i 0) rfl
            simp only [step, found, held, if_true, Option.map_eq_none_iff, Phase.resume] at none_
            split at none_ <;> cases none_
          · cases waits

theorem Still.not_waiting (still : Still s) (tended : Tended s) (party : Party) :
    s.waitsForLock party = false := by
  by_contra waits
  have free := still.lock_eq_none tended
  exact still.not_isSome (.lockGranted party) rfl (by simpa [step, free] using waits)

theorem Still.call_gone (still : Still s) (tended : Tended s) {call : AddCall}
    (member : call ∈ s.calls) : call = .gone := by
  obtain ⟨k, found⟩ := List.mem_iff_getElem?.mp member
  cases call with
  | gone => rfl
  | notifying =>
      have none_ := still (.callNotifies k) rfl
      simp only [step, found] at none_
      cases none_
  | locking msg nowMs =>
      have waits := still.not_waiting tended (.caller k)
      simp only [waitsForLock, found] at waits
      cases waits

theorem Still.task_ended [Inhabited Token] (still : Still s) (tended : Tended s)
    {task : SpawnedTask Fee Token TxId} (member : task ∈ s.tasks) : task.stage = .ended := by
  obtain ⟨i, found⟩ := List.mem_iff_getElem?.mp member
  obtain ⟨id, stage⟩ := task
  cases stage with
  | ended => rfl
  | notifying =>
      have none_ := still (.taskNotifies i) rfl
      simp only [step, found] at none_
      cases none_
  | returning =>
      have none_ := still (.taskReturns i) rfl
      simp only [step, found] at none_
      cases none_
  | running phase =>
      by_cases adding : ∃ msg, phase = .adding msg
      · obtain ⟨msg, rfl⟩ := adding
        have waits := still.not_waiting tended (.task i)
        simp only [waitsForLock, found] at waits
        cases waits
      · obtain ⟨answer, next, resumed⟩ := exists_resume phase fun exit same =>
          tended.unfinished _ member exit (congrArg TaskStage.running same)
        have none_ := still (.resumed i 0 answer) rfl
        simp only [step, found] at none_
        split at none_
        · rename_i same
          cases same
          exact absurd ⟨_, rfl⟩ adding
        · rename_i same
          cases same
          rw [resumed] at none_
          cases none_
        · rename_i other
          exact absurd rfl (other id phase)

theorem liveTasks_eq_zero (ended : ∀ task ∈ s.tasks, task.stage = .ended) : s.liveTasks = 0 := by
  rw [liveTasks, List.countP_eq_zero]
  intro task member
  simp [SpawnedTask.live, ended task member]

/-- Where nothing moves the loop is over, or it sleeps over an empty queue. -/
theorem Still.loop_rests [Inhabited Token] (still : Still s) (reached : Reachable s) :
    s.loop = .stopped ∨ s.loop = .parked false ∧ s.queue = [] := by
  have tended := reached.tended
  have ended : ∀ task ∈ s.tasks, task.stage = .ended := fun _ => still.task_ended tended
  cases here : s.loop with
  | stopped => exact .inl rfl
  | acquiring granted =>
      cases granted with
      | true => exact (still.not_isSome .permitPolled rfl (by simp [step, here])).elim
      | false =>
          have permits := reached.custody.permits
          rw [liveTasks_eq_zero ended, here, maxInFlightTransactions] at permits
          have free : 0 < s.freePermits := by
            simp only [LoopState.permits, Bool.toNat_false] at permits
            omega
          exact (still.not_isSome .permitGranted rfl (by simp [step, here, free])).elim
  | locking =>
      have waits := still.not_waiting tended .loop
      simp [waitsForLock, here] at waits
  | foundEmpty =>
      have none_ := still .polls rfl
      simp only [step, here, if_true] at none_
      split at none_ <;> cases none_
  | syncing => exact (still.not_isSome (.synced true) rfl (by simp [step, here])).elim
  | parked notified =>
      cases notified with
      | true => exact (still.not_isSome .wakes rfl (by simp [step, here])).elim
      | false =>
          refine .inr ⟨rfl, ?_⟩
          have told := reached.awake ⟨.inr here, tended.unstored here⟩
          refine told.resolve_right fun announced => ?_
          cases announced with
          | inl call => cases still.call_gone tended call
          | inr task =>
              obtain ⟨task, member, stage⟩ := task
              cases stage.symm.trans (ended task member)

theorem inTasks_eq_zero (ended : ∀ task ∈ s.tasks, task.stage = .ended) (id : ℕ) :
    s.inTasks id = 0 := by
  rw [inTasks, List.countP_eq_zero]
  intro task member
  simp [SpawnedTask.owns, ended task member]

/-- Without new messages and blocks every schedule is short, and where it can go no
    further all calls have returned, all tasks are over and every message is settled once,
    unless `run` itself has returned and left some in the queue. -/
theorem every_schedule_settles [Inhabited Token] {events : List (RunEvent Fee Token TxId)}
    (reached : Reachable s) (own : ∀ event ∈ events, event.internal)
    (ran : runs step s events = some t) :
    events.length ≤ s.work ∧
    ((∀ event : RunEvent Fee Token TxId, event.internal → t.step event = none) →
      (∀ call ∈ t.calls, call = .gone) ∧ (∀ task ∈ t.tasks, task.stage = .ended) ∧
      (∀ id < t.accepted, t.inQueue id + t.inFinished id = 1) ∧
      (t.loop = .stopped ∨ t.loop = .parked false ∧ t.queue = [])) := by
  have bounded := length_add_le_of_forall (fun _ _ _ => work_step) own ran
  have reaches : Reachable t := by
    obtain ⟨before, arrived⟩ := reached
    exact ⟨before ++ events, by rw [runs_append, arrived, Option.bind_some, ran]⟩
  refine ⟨by omega, fun still => ?_⟩
  have tended := reaches.tended
  have ended : ∀ task ∈ t.tasks, task.stage = .ended := fun _ => Still.task_ended still tended
  refine ⟨fun _ => Still.call_gone still tended, ended, fun id accepted => ?_,
    Still.loop_rests still reaches⟩
  have owned := reaches.custody.owned id
  rw [inTasks_eq_zero ended, if_pos accepted] at owned
  omega

/-- A message is added while the loop looks at the queue; its task fails and all comes to
    rest. -/
theorem every_schedule_settles_of_failure :
    let before : List (RunEvent ℕ ℕ ℕ) := [.permitGranted, .permitPolled, .lockGranted .loop,
      .findsEmpty, .addMessage sampleMessage 0]
    let events : List (RunEvent ℕ ℕ ℕ) := [.lockGranted (.caller 0), .callPushes 0, .polls,
      .callNotifies 0, .wakes, .permitGranted, .permitPolled, .lockGranted .loop, .pops 0,
      .resumed 0 0 .ready, .resumed 0 0 (.token 7), .resumed 0 0 (.fee (.error .messageExpired)),
      .resumed 0 0 .ready, .taskReturns 0, .permitGranted, .permitPolled, .lockGranted .loop,
      .findsEmpty, .polls]
    ∃ s t, runs step new before = some s ∧ runs step s events = some t ∧
      events.length ≤ s.work ∧ (t.loop = .stopped ∨ t.loop = .parked false ∧ t.queue = []) ∧
      t.accepted = 1 ∧ t.inQueue 0 + t.inFinished 0 = 1 := by
  intro before events
  let rest : RunLoop ℕ ℕ ℕ :=
    ⟨[], none, 16, .parked false, false, [.gone], [⟨0, .ended⟩], 1, [sampleMessage], [0]⟩
  have shown : (runs step new before).bind (fun s => runs step s events) = some rest := by decide
  obtain ⟨s, arrived, ran⟩ := Option.bind_eq_some_iff.mp shown
  have still : ∀ event : RunEvent ℕ ℕ ℕ, event.internal → rest.step event = none := by
    intro event own
    cases event with
    | addMessage | block | streamClosed => cases own
    | permitGranted | permitPolled | findsEmpty | polls | wakes | synced => rfl
    | pops k => rfl
    | callDropped k | callPushes k | callNotifies k => cases k <;> rfl
    | resumed i | taskPushes i | taskNotifies i | taskReturns i => cases i <;> rfl
    | lockGranted party =>
        cases party with
        | loop => rfl
        | caller k => cases k <;> rfl
        | task i => cases i <;> rfl
  obtain ⟨bounded, rests⟩ := every_schedule_settles ⟨before, arrived⟩ (by decide) ran
  obtain ⟨-, -, settled, loop⟩ := rests still
  exact ⟨s, rest, arrived, ran, bounded, loop, rfl, settled 0 Nat.zero_lt_one⟩

end RunLoop

end Bulkmail.Sender
