import Bulkmail.Sender.RunLoop

/-! # Who has a message, who has a permit

Every accepted message is in the queue, with a task or finished, and in one of these
only once; every permit is free, with the loop or with a live task.  A task that puts
its message back on the queue stays live for a moment without owning anything.  What
is queued or worked on under an id is the message that was accepted under it.
-/

namespace Bulkmail.Sender

open Library

variable {Fee Token TxId : Type}

namespace SpawnedTask

def live (task : SpawnedTask Fee Token TxId) : Bool :=
  match task.stage with
  | .ended => false
  | _ => true

def owns (id : ℕ) (task : SpawnedTask Fee Token TxId) : Bool :=
  match task.stage with
  | .running _ => task.id = id
  | _ => false

end SpawnedTask

def LoopState.permits : LoopState → ℕ
  | .acquiring granted => granted.toNat
  | .locking => 1
  | _ => 0

namespace RunLoop

variable {s s' : RunLoop Fee Token TxId} {event : RunEvent Fee Token TxId}

def inQueue (s : RunLoop Fee Token TxId) (id : ℕ) : ℕ := s.queue.countP (·.id = id)

def inTasks (s : RunLoop Fee Token TxId) (id : ℕ) : ℕ := s.tasks.countP (SpawnedTask.owns id)

def inFinished (s : RunLoop Fee Token TxId) (id : ℕ) : ℕ := s.finished.countP (· = id)

def liveTasks (s : RunLoop Fee Token TxId) : ℕ := s.tasks.countP SpawnedTask.live

structure Custody (s : RunLoop Fee Token TxId) : Prop where
  owned : ∀ id, s.inQueue id + s.inTasks id + s.inFinished id = if id < s.accepted then 1 else 0
  permits : s.liveTasks + s.loop.permits + s.freePermits = maxInFlightTransactions

theorem custody_new : Custody (new : RunLoop Fee Token TxId) where
  owned id := by simp [inQueue, inTasks, inFinished, new]
  permits := by simp [liveTasks, LoopState.permits, new]

/-- A step of the loop alone moves permits between itself and the semaphore. -/
theorem custody_loop {loop : LoopState} {lock : Option Party} {stored : Bool} {freePermits : ℕ}
    (custody : Custody s)
    (moved : loop.permits + freePermits = s.loop.permits + s.freePermits) :
    Custody { s with loop, lock, stored, freePermits } where
  owned := custody.owned
  permits := by
    have permits := custody.permits
    change s.liveTasks + loop.permits + freePermits = _
    omega

theorem custody_notifyOne (custody : Custody s) : Custody s.notifyOne := by
  unfold notifyOne
  split
  · rename_i waiting
    exact custody_loop custody (by simp [waiting, LoopState.permits])
  · exact custody_loop custody rfl

/-- A task that moves on hands over what it owned, and its permit when it ends. -/
theorem custody_task {i : ℕ} {task next : SpawnedTask Fee Token TxId} {queue : List Entry}
    {finished : List ℕ} {freePermits : ℕ} {lock : Option Party} (custody : Custody s)
    (found : s.tasks[i]? = some task)
    (handed : ∀ id, queue.countP (·.id = id) + (next.owns id).toNat + finished.countP (· = id) =
      s.inQueue id + (task.owns id).toNat + s.inFinished id)
    (permit : next.live.toNat + freePermits = task.live.toNat + s.freePermits) :
    Custody { s with tasks := s.tasks.set i next, queue, finished, freePermits, lock } where
  owned id := by
    have before := custody.owned id
    have moved := countP_set_add (SpawnedTask.owns id) found next
    have handed := handed id
    simp only [inQueue, inTasks, inFinished] at before handed ⊢
    omega
  permits := by
    have before := custody.permits
    have moved := countP_set_add SpawnedTask.live found next
    simp only [liveTasks] at before ⊢
    omega

/-- A message that is accepted is in the queue, and nowhere else. -/
theorem custody_accepted {msg : Message} {priority : ℕ} {calls : List AddCall}
    {lock : Option Party} (custody : Custody s) :
    Custody { s with
      queue := s.queue ++ [⟨s.accepted, msg, priority⟩]
      accepted := s.accepted + 1
      messages := s.messages ++ [msg]
      calls
      lock } where
  owned id := by
    have before := custody.owned id
    have pushed := countP_append_one (fun entry : Entry => decide (entry.id = id)) s.queue
      ⟨s.accepted, msg, priority⟩
    simp only [inQueue, inTasks, inFinished] at before ⊢
    by_cases same : s.accepted = id
    · subst same
      simp only [Nat.lt_irrefl, Nat.lt_succ_self, decide_true, Bool.toNat_true, if_true, if_false]
        at before pushed ⊢
      omega
    · have known : id < s.accepted + 1 ↔ id < s.accepted := by omega
      simp only [known, same, decide_false, Bool.toNat_false] at before pushed ⊢
      omega
  permits := custody.permits

/-- A popped message and the loop's permit go to the task that is spawned for it. -/
theorem custody_popped {k : ℕ} {entry : Entry} {lock : Option Party} (custody : Custody s)
    (here : s.loop = .locking) (found : s.queue[k]? = some entry) :
    Custody { s with
      queue := s.queue.eraseIdx k
      tasks := s.tasks ++ [⟨entry.id, .running (.starting entry.message)⟩]
      loop := .acquiring false
      lock } where
  owned id := by
    have before := custody.owned id
    have taken := countP_eraseIdx_add (fun entry : Entry => decide (entry.id = id)) found
    have spawned := countP_append_one (SpawnedTask.owns id) s.tasks
      ⟨entry.id, .running (.starting entry.message)⟩
    simp only [inQueue, inTasks, inFinished, SpawnedTask.owns] at before taken spawned ⊢
    omega
  permits := by
    have permits := custody.permits
    have spawned := countP_append_one SpawnedTask.live s.tasks
      ⟨entry.id, .running (.starting entry.message)⟩
    simp only [here, liveTasks, LoopState.permits, SpawnedTask.live, Bool.toNat_true,
      Bool.toNat_false] at permits spawned ⊢
    omega

theorem tasks_notifyOne : s.notifyOne.tasks = s.tasks := by
  unfold notifyOne
  split <;> rfl

theorem permits_outside {loop : LoopState} (outside : loop = .syncing ∨ loop = .stopped) :
    loop.permits = 0 := by
  cases outside with
  | inl same | inr same => rw [same]; rfl

theorem custody_step (custody : Custody s) (stepped : Stepped s s') : Custody s' := by
  cases stepped with
  | calls => exact ⟨custody.owned, custody.permits⟩
  | callPushes => exact custody_accepted custody
  | callNotifies =>
      have notified := custody_notifyOne custody
      exact ⟨notified.owned, notified.permits⟩
  | permitGranted here free =>
      refine custody_loop custody ?_
      simp only [here, LoopState.permits, Bool.toNat_true, Bool.toNat_false]
      omega
  | permitPolled here | wakes here => exact custody_loop custody (by simp [here, LoopState.permits])
  | consumes here | parks here => exact custody_loop custody (by simp [here, LoopState.permits])
  | findsEmpty here =>
      refine custody_loop custody ?_
      simp only [here, LoopState.permits]
      omega
  | dropAcquire here outside =>
      refine custody_loop custody ?_
      rw [here, permits_outside outside, LoopState.permits]
      omega
  | dropLock here outside =>
      refine custody_loop custody ?_
      rw [here, permits_outside outside, LoopState.permits]
      omega
  | dropWait here outside =>
      refine custody_loop custody ?_
      rw [here, permits_outside outside]
      rfl
  | @synced loop here next =>
      refine custody_loop custody ?_
      cases next with
      | inl same | inr same => simp [here, same, LoopState.permits]
  | pops here found => exact custody_popped custody here found
  | resumes found => exact custody_task custody found (fun _ => rfl) rfl
  | finishes found =>
      refine custody_task custody found (fun id => ?_) rfl
      simp only [inQueue, inFinished, countP_append_one, SpawnedTask.owns, Bool.toNat_false]
      omega
  | requeues found =>
      refine custody_task custody found (fun id => ?_) rfl
      simp only [inQueue, inFinished, countP_append_one, SpawnedTask.owns, Bool.toNat_false]
      omega
  | taskNotifies found =>
      rw [← tasks_notifyOne] at found ⊢
      exact custody_task (custody_notifyOne custody) found (fun _ => rfl) rfl
  | taskReturns found =>
      refine custody_task custody found (fun _ => rfl) ?_
      simp only [SpawnedTask.live, Bool.toNat_true, Bool.toNat_false]
      omega

theorem Reachable.custody (reached : Reachable s) : Custody s := by
  obtain ⟨events, ran⟩ := reached
  exact runs_invariant (fun s event s' held stepped => custody_step held (step_spec stepped))
    custody_new ran

/-- A message has one task at most. -/
theorem Custody.running_unique {i j id : ℕ} {phase phase' : Phase Fee Token TxId}
    (custody : Custody s) (found : s.tasks[i]? = some ⟨id, .running phase⟩)
    (found' : s.tasks[j]? = some ⟨id, .running phase'⟩) : i = j := by
  by_contra differ
  have owned := custody.owned id
  have rest := countP_eraseIdx_add (SpawnedTask.owns id) found
  have other : (s.tasks.eraseIdx i).countP (SpawnedTask.owns id) ≠ 0 := by
    rw [← Nat.pos_iff_ne_zero, List.countP_pos_iff]
    exact ⟨_, List.mem_eraseIdx_iff_getElem?.mpr ⟨j, Ne.symm differ, found'⟩, by
      simp [SpawnedTask.owns]⟩
  simp only [SpawnedTask.owns, decide_true, Bool.toNat_true] at rest
  rw [inTasks] at owned
  split at owned <;> omega

theorem Custody.not_mem_finished {i id : ℕ} {phase : Phase Fee Token TxId} (custody : Custody s)
    (found : s.tasks[i]? = some ⟨id, .running phase⟩) : id ∉ s.finished := by
  intro member
  have owned := custody.owned id
  have working : 0 < s.inTasks id :=
    List.countP_pos_iff.mpr ⟨_, List.mem_of_getElem? found, by simp [SpawnedTask.owns]⟩
  have over_ : 0 < s.inFinished id := List.countP_pos_iff.mpr ⟨id, member, by simp⟩
  split at owned <;> omega

/-! ## What was accepted -/

/-- Whoever has the message `id` has this one. -/
structure Holds (s : RunLoop Fee Token TxId) (id : ℕ) (msg : Message) : Prop where
  queued : ∀ entry ∈ s.queue, entry.id = id → entry.message.content = msg.content
  carried : ∀ {i : ℕ} {phase}, s.tasks[i]? = some ⟨id, .running phase⟩ → phase.Bears msg.content

structure Faithful (s : RunLoop Fee Token TxId) : Prop where
  counted : s.messages.length = s.accepted
  queued : ∀ entry ∈ s.queue, ∃ msg, s.messages[entry.id]? = some msg ∧
    entry.message.content = msg.content
  carried : ∀ {i id : ℕ} {phase}, s.tasks[i]? = some ⟨id, .running phase⟩ →
    ∃ msg, s.messages[id]? = some msg ∧ phase.Bears msg.content

theorem faithful_new : Faithful (new : RunLoop Fee Token TxId) where
  counted := rfl
  queued _ member := by cases member
  carried found := by cases found

/-- An id stays that of its message. -/
theorem messages_stepped {id : ℕ} {msg : Message} (moved : Stepped s s')
    (accepted : s.messages[id]? = some msg) : s'.messages[id]? = some msg := by
  cases moved with
  | callPushes => exact getElem?_append_of_some accepted _
  | callNotifies | taskNotifies =>
      unfold notifyOne
      split <;> exact accepted
  | calls | permitGranted | permitPolled | pops | findsEmpty | consumes | parks | wakes
  | dropAcquire | dropLock | dropWait | synced | resumes | finishes | requeues | taskReturns =>
      exact accepted

/-- Where nothing is queued anew and no task is brought on, nothing is mistaken. -/
theorem Faithful.of_subset (faithful : Faithful s) (accepted : s'.accepted = s.accepted)
    (messages : s'.messages = s.messages) (entries : ∀ entry ∈ s'.queue, entry ∈ s.queue)
    (running : ∀ {i id : ℕ} {phase}, s'.tasks[i]? = some ⟨id, .running phase⟩ →
      s.tasks[i]? = some ⟨id, .running phase⟩) : Faithful s' where
  counted := by rw [messages, accepted, faithful.counted]
  queued entry member := by
    rw [messages]
    exact faithful.queued entry (entries entry member)
  carried found := by
    rw [messages]
    exact faithful.carried (running found)

/-- A task that is brought on carries its message on. -/
theorem Faithful.carried_set {i id : ℕ} {phase : Phase Fee Token TxId}
    {stage : TaskStage Fee Token TxId} (faithful : Faithful s)
    (found : s.tasks[i]? = some ⟨id, .running phase⟩)
    (carries : ∀ next, stage = .running next → phase.CarriesOn next) {j id' : ℕ} {phase' : _}
    (there : (s.tasks.set i ⟨id, stage⟩)[j]? = some ⟨id', .running phase'⟩) :
    ∃ msg, s.messages[id']? = some msg ∧ phase'.Bears msg.content := by
  rw [List.getElem?_set] at there
  split at there
  · split at there
    · cases there
      obtain ⟨msg, accepted, bears⟩ := faithful.carried found
      exact ⟨msg, accepted, carries phase' rfl _ bears⟩
    · cases there
  · exact faithful.carried there

theorem running_of_set {tasks : List (SpawnedTask Fee Token TxId)} {i id : ℕ}
    {stage : TaskStage Fee Token TxId} (ended : ∀ phase, stage ≠ .running phase) {j id' : ℕ}
    {phase : Phase Fee Token TxId}
    (there : (tasks.set i ⟨id, stage⟩)[j]? = some ⟨id', .running phase⟩) :
    tasks[j]? = some ⟨id', .running phase⟩ := by
  rw [List.getElem?_set] at there
  split at there
  · split at there
    · cases there
      exact absurd rfl (ended phase)
    · cases there
  · exact there

theorem faithful_accepted {msg : Message} {priority : ℕ} {calls : List AddCall}
    {lock : Option Party} (faithful : Faithful s) :
    Faithful { s with
      queue := s.queue ++ [⟨s.accepted, msg, priority⟩]
      accepted := s.accepted + 1
      messages := s.messages ++ [msg]
      calls
      lock } where
  counted := by rw [List.length_append, faithful.counted]; rfl
  queued entry member := by
    cases List.mem_append.mp member with
    | inl before =>
        obtain ⟨kept, accepted, same⟩ := faithful.queued entry before
        exact ⟨kept, getElem?_append_of_some accepted _, same⟩
    | inr last =>
        obtain rfl := List.mem_singleton.mp last
        refine ⟨msg, ?_, rfl⟩
        rw [← faithful.counted]
        exact List.getElem?_concat_length
  carried found := by
    obtain ⟨kept, accepted, bears⟩ := faithful.carried found
    exact ⟨kept, getElem?_append_of_some accepted _, bears⟩

theorem faithful_popped {k : ℕ} {entry : Entry} {lock : Option Party} (faithful : Faithful s)
    (found : s.queue[k]? = some entry) :
    Faithful { s with
      queue := s.queue.eraseIdx k
      tasks := s.tasks ++ [⟨entry.id, .running (.starting entry.message)⟩]
      loop := .acquiring false
      lock } where
  counted := faithful.counted
  queued other member := faithful.queued other (List.mem_of_mem_eraseIdx member)
  carried there := by
    obtain before | ⟨-, last⟩ := getElem?_append_one there
    · exact faithful.carried before
    · cases last
      obtain ⟨msg, accepted, same⟩ := faithful.queued entry (List.mem_of_getElem? found)
      refine ⟨msg, accepted, fun other member => ?_⟩
      rw [List.mem_singleton.mp member, same]

theorem faithful_step (faithful : Faithful s) (stepped : Stepped s s') : Faithful s' := by
  cases stepped with
  | calls | permitGranted | permitPolled | findsEmpty | consumes | parks | wakes | dropAcquire
  | dropLock | dropWait | synced => exact faithful.of_subset rfl rfl (fun _ => id) id
  | callPushes => exact faithful_accepted faithful
  | callNotifies =>
      refine faithful.of_subset ?_ ?_ ?_ ?_
      all_goals
        unfold notifyOne
        split <;> simp
  | pops _ found => exact faithful_popped faithful found
  | resumes found carries =>
      refine { faithful with carried := faithful.carried_set found fun next same => ?_ }
      cases same
      exact carries
  | finishes found | taskReturns found =>
      exact faithful.of_subset rfl rfl (fun _ => id) (running_of_set (by simp))
  | @requeues i id phase msg priority lock found carries =>
      refine ⟨faithful.counted, fun entry member => ?_,
        faithful.carried_set found (by simp)⟩
      cases List.mem_append.mp member with
      | inl before => exact faithful.queued entry before
      | inr last =>
          obtain rfl := List.mem_singleton.mp last
          obtain ⟨kept, accepted, bears⟩ := faithful.carried found
          exact ⟨kept, accepted, carries _ bears msg (List.mem_singleton_self msg)⟩
  | taskNotifies found =>
      refine faithful.of_subset ?_ ?_ ?_ (fun there => running_of_set (by simp) there)
      all_goals
        unfold notifyOne
        split <;> simp

theorem Reachable.faithful (reached : Reachable s) : Faithful s := by
  obtain ⟨events, ran⟩ := reached
  exact runs_invariant (fun s event s' held stepped => faithful_step held (step_spec stepped))
    faithful_new ran

theorem Faithful.holds {id : ℕ} {msg : Message} (faithful : Faithful s)
    (accepted : s.messages[id]? = some msg) : s.Holds id msg where
  queued entry member same := by
    obtain ⟨kept, found, content⟩ := faithful.queued entry member
    rw [same, accepted] at found
    cases found
    exact content
  carried found := by
    obtain ⟨kept, there, bears⟩ := faithful.carried found
    cases accepted.symm.trans there
    exact bears

/-- Each accepted message is in one place, where it is the one that was accepted, and the
    permits bound the live tasks. -/
theorem one_owner (reached : Reachable s) :
    (∀ id < s.accepted, s.inQueue id + s.inTasks id + s.inFinished id = 1) ∧
    s.liveTasks + s.loop.permits + s.freePermits = maxInFlightTransactions ∧
    s.liveTasks ≤ 16 ∧
    ∀ id < s.accepted, ∃ msg, s.messages[id]? = some msg ∧ s.Holds id msg := by
  have custody := reached.custody
  have permits := custody.permits
  refine ⟨fun id accepted => ?_, permits, ?_, fun id accepted => ?_⟩
  · rw [custody.owned id, if_pos accepted]
  · rw [maxInFlightTransactions] at permits
    omega
  · have faithful := reached.faithful
    have inside := faithful.counted.symm ▸ accepted
    have found := List.getElem?_eq_getElem inside
    exact ⟨_, found, faithful.holds found⟩

/-- A block drops the loop with a permit and the lock in hand; later the message is popped
    and requeued by its task. -/
theorem one_owner_after_requeue :
    let events : List (RunEvent ℕ ℕ ℕ) := [.addMessage sampleMessage 0, .lockGranted (.caller 0),
      .callPushes 0, .permitGranted, .permitPolled, .lockGranted .loop, .block, .callNotifies 0,
      .synced true, .permitGranted, .permitPolled, .lockGranted .loop, .pops 0,
      .resumed 0 0 .ready, .resumed 0 0 (.token 7), .resumed 0 0 (.fee (.ok 1)),
      .resumed 0 0 .ready, .resumed 0 0 (.outcome (.ok (.dropped 4))),
      .resumed 0 0 (.decision .requeue), .resumed 0 0 .ready, .lockGranted (.task 0),
      .taskPushes 0 0]
    ∃ s, runs step new events = some s ∧
      (s.accepted, s.inQueue 0, s.inTasks 0, s.liveTasks, s.freePermits) = (1, 1, 0, 1, 15) ∧
      (∀ id < s.accepted, s.inQueue id + s.inTasks id + s.inFinished id = 1) ∧
      s.liveTasks + s.loop.permits + s.freePermits = maxInFlightTransactions ∧
      s.liveTasks ≤ 16 ∧
      ∀ id < s.accepted, ∃ msg, s.messages[id]? = some msg ∧ s.Holds id msg := by
  intro events
  have shown : (runs step new events).map
      (fun s => (s.accepted, s.inQueue 0, s.inTasks 0, s.liveTasks, s.freePermits)) =
      some (1, 1, 0, 1, 15) := by decide
  obtain ⟨s, ran, counts⟩ := Option.map_eq_some_iff.mp shown
  exact ⟨s, ran, counts, one_owner ⟨events, ran⟩⟩

end RunLoop

end Bulkmail.Sender
