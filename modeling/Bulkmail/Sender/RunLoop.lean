import Bulkmail.Library.Collections
import Bulkmail.Library.Runs
import Bulkmail.Sender.Task

/-! # The run loop

`add_message`, `run` and `process_next_message` of `bulkmail/src/sender.rs`, together with
the tasks they spawn, interleaved at every point where another thread can get in between.
A block notification drops the pending `process_next_message` at whichever await it has
reached.  The semaphore, the queue's mutex and the `Notify` are the parts of tokio the
loop relies on: a permit or a lock may already be granted to a future that has not been
polled again, and dropping that future gives it back.
-/

namespace Bulkmail.Sender

open Library

variable {Fee Token TxId : Type}

def maxInFlightTransactions : ℕ := 16

/-- A `PrioritizedMessage`.  The id tells accepted messages apart. -/
structure Entry where
  id : ℕ
  message : Message
  effectivePriority : ℕ
  deriving DecidableEq, Repr

/-- Who may wait for the queue's lock. -/
inductive Party where
  | loop
  | caller (k : ℕ)
  | task (i : ℕ)
  deriving DecidableEq, Repr

/-- A call of `add_message` from outside. -/
inductive AddCall where
  | locking (msg : Message) (nowMs : ℕ)
  | notifying
  | gone
  deriving DecidableEq, Repr

/-- Where `run` stands.  Everything up to `parked` is inside `process_next_message`. -/
inductive LoopState where
  | acquiring (granted : Bool)
  | locking
  /-- The queue was empty and the permit is dropped; `notified()` comes next. -/
  | foundEmpty
  | parked (notified : Bool)
  | syncing
  | stopped
  deriving DecidableEq, Repr

inductive TaskStage (Fee Token TxId : Type) where
  | running (phase : Phase Fee Token TxId)
  | notifying
  /-- The message is settled and the permit still held. -/
  | returning
  | ended
  deriving DecidableEq, Repr

structure SpawnedTask (Fee Token TxId : Type) where
  id : ℕ
  stage : TaskStage Fee Token TxId
  deriving DecidableEq, Repr

structure RunLoop (Fee Token TxId : Type) where
  queue : List Entry
  lock : Option Party
  freePermits : ℕ
  loop : LoopState
  /-- The wake-up `message_ready` keeps for the next waiter. -/
  stored : Bool
  calls : List AddCall
  tasks : List (SpawnedTask Fee Token TxId)
  /-- How many messages have been pushed by callers. -/
  accepted : ℕ
  /-- These messages, in the order of their ids. -/
  messages : List Message
  finished : List ℕ
  deriving DecidableEq, Repr

inductive RunEvent (Fee Token TxId : Type) where
  | addMessage (msg : Message) (nowMs : ℕ)
  | callDropped (k : ℕ)
  | callPushes (k : ℕ)
  | callNotifies (k : ℕ)
  | lockGranted (party : Party)
  | permitGranted
  | permitPolled
  | pops (k : ℕ)
  | findsEmpty
  | polls
  | wakes
  | block
  | synced (ok : Bool)
  | streamClosed
  | resumed (i nowMs : ℕ) (answer : Answer Fee Token TxId)
  | taskPushes (i nowMs : ℕ)
  | taskNotifies (i : ℕ)
  | taskReturns (i : ℕ)

/-- `pop` takes an entry of the highest priority; which of several is up to the heap. -/
def popAt (queue : List Entry) (k : ℕ) : Option (Entry × List Entry) :=
  queue[k]?.bind fun entry =>
    if ∀ other ∈ queue, other.effectivePriority ≤ entry.effectivePriority then
      some (entry, queue.eraseIdx k)
    else none

theorem popAt_spec {queue rest : List Entry} {k : ℕ} {entry : Entry}
    (popped : popAt queue k = some (entry, rest)) :
    queue[k]? = some entry ∧
      (∀ other ∈ queue, other.effectivePriority ≤ entry.effectivePriority) ∧
      rest = queue.eraseIdx k := by
  obtain ⟨found, at_, result⟩ := Option.bind_eq_some_iff.mp popped
  split at result
  · rename_i top
    cases result
    exact ⟨at_, top, rfl⟩
  · cases result

namespace RunLoop

def new : RunLoop Fee Token TxId where
  queue := []
  lock := none
  freePermits := maxInFlightTransactions
  loop := .acquiring false
  stored := false
  calls := []
  tasks := []
  accepted := 0
  messages := []
  finished := []

variable (s : RunLoop Fee Token TxId)

/-- The lock after a party that may hold it is gone. -/
def unlock (party : Party) : Option Party := if s.lock = some party then none else s.lock

/-- `notify_one`: wake the waiting loop, or remember one wake-up. -/
def notifyOne : RunLoop Fee Token TxId :=
  if s.loop = .parked false then { s with loop := .parked true } else { s with stored := true }

/-- Drop `process_next_message` at an await and go to `loop`. -/
def dropNext (loop : LoopState) : Option (RunLoop Fee Token TxId) :=
  match s.loop with
  | .acquiring granted => some { s with loop, freePermits := s.freePermits + granted.toNat }
  | .locking => some { s with loop, freePermits := s.freePermits + 1, lock := s.unlock .loop }
  | .parked notified => some { s with loop, stored := s.stored || notified }
  | _ => none

def waitsForLock : Party → Bool
  | .loop => s.loop = .locking
  | .caller k =>
      match s.calls[k]? with
      | some (.locking _ _) => true
      | _ => false
  | .task i =>
      match s.tasks[i]? with
      | some ⟨_, .running (.adding _)⟩ => true
      | _ => false

/-- The spawned task `i` has come to the end `exit` of its message. -/
def settle (i id : ℕ) : Exit → RunLoop Fee Token TxId
  | .requeued msg priority =>
      { s with queue := s.queue ++ [⟨id, msg, priority⟩], tasks := s.tasks.set i ⟨id, .notifying⟩ }
  | _ => { s with finished := s.finished ++ [id], tasks := s.tasks.set i ⟨id, .returning⟩ }

def proceed (i id : ℕ) : Phase Fee Token TxId → RunLoop Fee Token TxId
  | .finished exit => s.settle i id exit
  | phase => { s with tasks := s.tasks.set i ⟨id, .running phase⟩ }

def step : RunEvent Fee Token TxId → Option (RunLoop Fee Token TxId)
  | .addMessage msg nowMs => some { s with calls := s.calls ++ [.locking msg nowMs] }
  | .callDropped k =>
      match s.calls[k]? with
      | some (.locking _ _) =>
          some { s with calls := s.calls.set k .gone, lock := s.unlock (.caller k) }
      | _ => none
  | .callPushes k =>
      match s.calls[k]? with
      | some (.locking msg nowMs) =>
          if s.lock = some (.caller k) then
            match msg.effectivePriority nowMs with
            | none => some { s with calls := s.calls.set k .gone, lock := none }
            | some priority =>
                some { s with
                  queue := s.queue ++ [⟨s.accepted, msg, priority⟩]
                  accepted := s.accepted + 1
                  messages := s.messages ++ [msg]
                  calls := s.calls.set k .notifying
                  lock := none }
          else none
      | _ => none
  | .callNotifies k =>
      match s.calls[k]? with
      | some .notifying => some { s.notifyOne with calls := s.calls.set k .gone }
      | _ => none
  | .lockGranted party =>
      if s.lock = none ∧ s.waitsForLock party then some { s with lock := some party } else none
  | .permitGranted =>
      if s.loop = .acquiring false ∧ 0 < s.freePermits then
        some { s with loop := .acquiring true, freePermits := s.freePermits - 1 }
      else none
  | .permitPolled => if s.loop = .acquiring true then some { s with loop := .locking } else none
  | .pops k =>
      if s.loop = .locking ∧ s.lock = some .loop then
        (popAt s.queue k).map fun (entry, queue) =>
          { s with
            queue
            tasks := s.tasks ++ [⟨entry.id, .running (.starting entry.message)⟩]
            loop := .acquiring false
            lock := none }
      else none
  | .findsEmpty =>
      if s.loop = .locking ∧ s.lock = some .loop ∧ s.queue = [] then
        some { s with loop := .foundEmpty, freePermits := s.freePermits + 1, lock := none }
      else none
  | .polls =>
      if s.loop = .foundEmpty then
        if s.stored then some { s with loop := .acquiring false, stored := false }
        else some { s with loop := .parked false }
      else none
  | .wakes => if s.loop = .parked true then some { s with loop := .acquiring false } else none
  | .block => s.dropNext .syncing
  | .synced ok =>
      if s.loop = .syncing then some { s with loop := if ok then .acquiring false else .stopped }
      else none
  | .streamClosed => s.dropNext .stopped
  | .resumed i nowMs answer =>
      match s.tasks[i]? with
      | some ⟨_, .running (.adding _)⟩ => none
      | some ⟨id, .running phase⟩ => (phase.resume nowMs answer).map (s.proceed i id)
      | _ => none
  | .taskPushes i nowMs =>
      match s.tasks[i]? with
      | some ⟨id, .running (.adding msg)⟩ =>
          if s.lock = some (.task i) then
            (Phase.resume nowMs (.adding msg) .ready).map fun phase : Phase Fee Token TxId =>
              { s.proceed i id phase with lock := none }
          else none
      | _ => none
  | .taskNotifies i =>
      match s.tasks[i]? with
      | some ⟨id, .notifying⟩ => some { s.notifyOne with tasks := s.tasks.set i ⟨id, .returning⟩ }
      | _ => none
  | .taskReturns i =>
      match s.tasks[i]? with
      | some ⟨id, .returning⟩ =>
          some { s with tasks := s.tasks.set i ⟨id, .ended⟩, freePermits := s.freePermits + 1 }
      | _ => none

def Reachable : Prop := ∃ events, runs step new events = some s

/-- Everything a step can do.  Who has the lock plays no part in what follows, so the
    lock of the next state is left open. -/
inductive Stepped (s : RunLoop Fee Token TxId) : RunLoop Fee Token TxId → Prop where
  | calls {calls lock} : (.notifying ∈ s.calls → .notifying ∈ calls) →
      Stepped s { s with calls, lock }
  | callPushes {k msg nowMs priority lock} : s.calls[k]? = some (.locking msg nowMs) →
      Stepped s { s with
        queue := s.queue ++ [⟨s.accepted, msg, priority⟩]
        accepted := s.accepted + 1
        messages := s.messages ++ [msg]
        calls := s.calls.set k .notifying
        lock }
  | callNotifies {k} : s.calls[k]? = some .notifying →
      Stepped s { s.notifyOne with calls := s.calls.set k .gone }
  | permitGranted : s.loop = .acquiring false → 0 < s.freePermits →
      Stepped s { s with loop := .acquiring true, freePermits := s.freePermits - 1 }
  | permitPolled : s.loop = .acquiring true → Stepped s { s with loop := .locking }
  | pops {k entry lock} : s.loop = .locking → s.queue[k]? = some entry →
      (∀ other ∈ s.queue, other.effectivePriority ≤ entry.effectivePriority) →
      Stepped s { s with
        queue := s.queue.eraseIdx k
        tasks := s.tasks ++ [⟨entry.id, .running (.starting entry.message)⟩]
        loop := .acquiring false
        lock }
  | findsEmpty {lock} : s.loop = .locking → s.queue = [] →
      Stepped s { s with loop := .foundEmpty, freePermits := s.freePermits + 1, lock }
  | consumes : s.loop = .foundEmpty → s.stored = true →
      Stepped s { s with loop := .acquiring false, stored := false }
  | parks : s.loop = .foundEmpty → s.stored = false → Stepped s { s with loop := .parked false }
  | wakes : s.loop = .parked true → Stepped s { s with loop := .acquiring false }
  | dropAcquire {granted loop} : s.loop = .acquiring granted → loop = .syncing ∨ loop = .stopped →
      Stepped s { s with loop, freePermits := s.freePermits + granted.toNat }
  | dropLock {loop lock} : s.loop = .locking → loop = .syncing ∨ loop = .stopped →
      Stepped s { s with loop, freePermits := s.freePermits + 1, lock }
  | dropWait {notified loop} : s.loop = .parked notified → loop = .syncing ∨ loop = .stopped →
      Stepped s { s with loop, stored := s.stored || notified }
  | synced {loop} : s.loop = .syncing → loop = .acquiring false ∨ loop = .stopped →
      Stepped s { s with loop }
  | resumes {i id phase next} : s.tasks[i]? = some ⟨id, .running phase⟩ → phase.CarriesOn next →
      Stepped s { s with tasks := s.tasks.set i ⟨id, .running next⟩ }
  | finishes {i id phase lock} : s.tasks[i]? = some ⟨id, .running phase⟩ →
      Stepped s { s with
        finished := s.finished ++ [id], tasks := s.tasks.set i ⟨id, .returning⟩, lock }
  | requeues {i id phase msg priority lock} : s.tasks[i]? = some ⟨id, .running phase⟩ →
      phase.CarriesOn (.finished (.requeued msg priority)) → Stepped s { s with
        queue := s.queue ++ [⟨id, msg, priority⟩], tasks := s.tasks.set i ⟨id, .notifying⟩, lock }
  | taskNotifies {i id} : s.tasks[i]? = some ⟨id, .notifying⟩ →
      Stepped s { s.notifyOne with tasks := s.tasks.set i ⟨id, .returning⟩ }
  | taskReturns {i id} : s.tasks[i]? = some ⟨id, .returning⟩ →
      Stepped s { s with tasks := s.tasks.set i ⟨id, .ended⟩, freePermits := s.freePermits + 1 }

variable {s} {s' : RunLoop Fee Token TxId} {event : RunEvent Fee Token TxId}

theorem dropNext_spec {loop : LoopState} (dropped : s.dropNext loop = some s')
    (outside : loop = .syncing ∨ loop = .stopped) : Stepped s s' := by
  unfold dropNext at dropped
  split at dropped
  · rename_i granted here
    cases dropped
    exact .dropAcquire here outside
  · rename_i here
    cases dropped
    exact .dropLock here outside
  · rename_i notified here
    cases dropped
    exact .dropWait here outside
  · cases dropped

theorem settle_spec {i id : ℕ} {phase : Phase Fee Token TxId} {lock : Option Party}
    (found : s.tasks[i]? = some ⟨id, .running phase⟩) {exit : Exit}
    (carries : phase.CarriesOn (.finished exit)) :
    Stepped s { s.settle i id exit with lock } := by
  cases exit with
  | requeued msg priority => exact .requeues found carries
  | confirmed | failed | exhausted | abandoned | panicked => exact .finishes found

theorem proceed_spec {i id : ℕ} {phase : Phase Fee Token TxId}
    (found : s.tasks[i]? = some ⟨id, .running phase⟩) {next : Phase Fee Token TxId}
    (carries : phase.CarriesOn next) : Stepped s (s.proceed i id next) := by
  cases next with
  | finished exit => exact settle_spec found carries
  | starting | nextToken | feeParams | iterating | sending | confirming | retrying | releasing
  | adding => exact .resumes found carries

theorem step_spec (stepped : s.step event = some s') : Stepped s s' := by
  cases event with
  | addMessage msg nowMs =>
      cases stepped
      exact .calls fun member => List.mem_append_left _ member
  | callDropped k =>
      simp only [step] at stepped
      split at stepped
      · rename_i msg nowMs found
        cases stepped
        exact .calls (mem_set_of_mem found (by simp))
      · cases stepped
  | callPushes k =>
      simp only [step] at stepped
      split at stepped
      · rename_i msg nowMs found
        obtain ⟨-, pushed⟩ := Option.ite_none_right_eq_some.mp stepped
        split at pushed
        · cases pushed
          exact .calls (mem_set_of_mem found (by simp))
        · cases pushed
          exact .callPushes found
      · cases stepped
  | callNotifies k =>
      simp only [step] at stepped
      split at stepped
      · rename_i found
        cases stepped
        exact .callNotifies found
      · cases stepped
  | lockGranted party =>
      obtain ⟨-, granted⟩ := Option.ite_none_right_eq_some.mp stepped
      cases granted
      exact .calls id
  | permitGranted =>
      obtain ⟨⟨here, free⟩, granted⟩ := Option.ite_none_right_eq_some.mp stepped
      cases granted
      exact .permitGranted here free
  | permitPolled =>
      obtain ⟨here, polled⟩ := Option.ite_none_right_eq_some.mp stepped
      cases polled
      exact .permitPolled here
  | pops k =>
      obtain ⟨⟨here, -⟩, pops⟩ := Option.ite_none_right_eq_some.mp stepped
      obtain ⟨⟨entry, rest⟩, popped, rfl⟩ := Option.map_eq_some_iff.mp pops
      obtain ⟨found, top, rfl⟩ := popAt_spec popped
      exact .pops here found top
  | findsEmpty =>
      obtain ⟨⟨here, -, vacant⟩, found⟩ := Option.ite_none_right_eq_some.mp stepped
      cases found
      exact .findsEmpty here vacant
  | polls =>
      obtain ⟨here, polled⟩ := Option.ite_none_right_eq_some.mp stepped
      split at polled
      · rename_i kept
        cases polled
        exact .consumes here kept
      · rename_i none_
        cases polled
        exact .parks here (by simpa using none_)
  | wakes =>
      obtain ⟨here, woken⟩ := Option.ite_none_right_eq_some.mp stepped
      cases woken
      exact .wakes here
  | block => exact dropNext_spec stepped (.inl rfl)
  | synced ok =>
      obtain ⟨here, resumed⟩ := Option.ite_none_right_eq_some.mp stepped
      cases resumed
      exact .synced here (by cases ok <;> simp)
  | streamClosed => exact dropNext_spec stepped (.inr rfl)
  | resumed i nowMs answer =>
      simp only [step] at stepped
      split at stepped
      · cases stepped
      · rename_i id phase _ found
        obtain ⟨next, resumed, rfl⟩ := Option.map_eq_some_iff.mp stepped
        exact proceed_spec found (Phase.resume_spec resumed).carriesOn
      · cases stepped
  | taskPushes i nowMs =>
      simp only [step] at stepped
      split at stepped
      · rename_i id msg found
        obtain ⟨-, pushed⟩ := Option.ite_none_right_eq_some.mp stepped
        obtain ⟨next, resumed, rfl⟩ := Option.map_eq_some_iff.mp pushed
        have spec := Phase.resume_spec resumed
        have carries := spec.carriesOn
        cases spec with
        | addPanic | added => exact settle_spec found carries
      · cases stepped
  | taskNotifies i =>
      simp only [step] at stepped
      split at stepped
      · rename_i id found
        cases stepped
        exact .taskNotifies found
      · cases stepped
  | taskReturns i =>
      simp only [step] at stepped
      split at stepped
      · rename_i id found
        cases stepped
        exact .taskReturns found
      · cases stepped

end RunLoop

end Bulkmail.Sender
