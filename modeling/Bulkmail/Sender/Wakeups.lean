import Bulkmail.Sender.RunLoop

/-! # No lost wake-up

`message_ready` remembers a single wake-up however many messages are pushed, and the loop
looks at the queue before it waits.  Between finding the queue empty and being woken, any
message that has arrived is announced: by a stored wake-up, or by the `notify_one` its
`add_message` has still to execute.
-/

namespace Bulkmail.Sender.RunLoop

open Library

variable {Fee Token TxId : Type} {s s' : RunLoop Fee Token TxId}

/-- Some `add_message`, a caller's or a task's, has pushed and not yet notified. -/
def Announcing (s : RunLoop Fee Token TxId) : Prop :=
  .notifying ∈ s.calls ∨ ∃ task ∈ s.tasks, task.stage = .notifying

/-- The loop has seen an empty queue and goes to sleep unless it is told otherwise. -/
def Dozing (s : RunLoop Fee Token TxId) : Prop :=
  (s.loop = .foundEmpty ∨ s.loop = .parked false) ∧ s.stored = false

def Awake (s : RunLoop Fee Token TxId) : Prop := s.Dozing → s.queue = [] ∨ s.Announcing

/-- After a notification the loop is not dozing. -/
theorem not_dozing_notifyOne : ¬ s.notifyOne.Dozing := by
  unfold notifyOne
  split
  · simp [Dozing]
  · simp [Dozing]

theorem not_dozing_outside {loop : LoopState} {stored : Bool} {freePermits : ℕ}
    {lock : Option Party} (outside : loop = .syncing ∨ loop = .stopped) :
    ¬ Dozing { s with loop, stored, freePermits, lock } := by
  cases outside with
  | inl same | inr same => simp [Dozing, same]

/-- A task that moves on from another point takes no announcement away. -/
theorem announcing_set {i : ℕ} {task next : SpawnedTask Fee Token TxId} {freePermits : ℕ}
    {finished : List ℕ} {lock : Option Party} (found : s.tasks[i]? = some task)
    (other : task.stage ≠ .notifying) (announcing : s.Announcing) :
    Announcing { s with tasks := s.tasks.set i next, freePermits, finished, lock } := by
  cases announcing with
  | inl call => exact .inl call
  | inr announced =>
      obtain ⟨owner, member, stage⟩ := announced
      have differs : task ≠ owner := fun same => other (same ▸ stage)
      exact .inr ⟨owner, mem_set_of_mem found differs member, stage⟩

theorem awake_step (awake : Awake s) (stepped : Stepped s s') : Awake s' := by
  cases stepped with
  | calls kept => exact fun dozing => (awake dozing).imp_right (Or.imp_left kept)
  | callPushes found =>
      intro dozing
      have inside := (List.getElem?_eq_some_iff.mp found).1
      exact .inr (.inl (List.mem_set inside _))
  | requeues found =>
      intro dozing
      have inside := (List.getElem?_eq_some_iff.mp found).1
      exact .inr (.inr ⟨_, List.mem_set inside _, rfl⟩)
  | callNotifies | taskNotifies => exact fun dozing => absurd dozing not_dozing_notifyOne
  | permitGranted | permitPolled | pops | consumes | wakes =>
      intro dozing
      simp [Dozing] at dozing
  | dropAcquire here outside | dropLock here outside | dropWait here outside =>
      exact fun dozing => absurd dozing (not_dozing_outside outside)
  | synced here next =>
      intro dozing
      cases next with
      | inl same | inr same => simp [Dozing, same] at dozing
  | findsEmpty here empty => exact fun _ => .inl empty
  | parks here unstored => exact fun _ => awake ⟨.inl here, unstored⟩
  | resumes found | finishes found | taskReturns found =>
      exact fun dozing => (awake dozing).imp_right (announcing_set found (by simp))

theorem Reachable.awake (reached : Reachable s) : Awake s := by
  obtain ⟨events, ran⟩ := reached
  refine runs_invariant (fun s event s' held stepped => awake_step held (step_spec stepped))
    ?_ ran
  simp [Awake, Dozing, new]

/-- A loop that sleeps with no wake-up in store has nothing to do yet. -/
theorem never_sleeps_on_work (reached : Reachable s) (sleeping : s.loop = .parked false)
    (unstored : s.stored = false) :
    s.queue = [] ∨ .notifying ∈ s.calls ∨ ∃ task ∈ s.tasks, task.stage = .notifying :=
  reached.awake ⟨.inr sleeping, unstored⟩

/-- A message is pushed between the look at the queue and the wait. -/
theorem sleeps_before_notification :
    let events : List (RunEvent ℕ ℕ ℕ) := [.addMessage sampleMessage 0, .permitGranted,
      .permitPolled, .lockGranted .loop, .findsEmpty, .lockGranted (.caller 0), .callPushes 0,
      .polls]
    ∃ s, runs step new events = some s ∧
      (s.queue.length, s.loop, s.stored) = (1, .parked false, false) ∧
      (s.queue = [] ∨ .notifying ∈ s.calls ∨ ∃ task ∈ s.tasks, task.stage = .notifying) := by
  intro events
  have shown : (runs step new events).map (fun s => (s.queue.length, s.loop, s.stored)) =
      some (1, .parked false, false) := by decide
  obtain ⟨s, ran, now⟩ := Option.map_eq_some_iff.mp shown
  have sleeping : s.loop = .parked false := congrArg (·.2.1) now
  have unstored : s.stored = false := congrArg (·.2.2) now
  exact ⟨s, ran, now, never_sleeps_on_work ⟨events, ran⟩ sleeping unstored⟩

end Bulkmail.Sender.RunLoop
