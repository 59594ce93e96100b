import Bulkmail.Sender.RunLoop

/-! # Overtaking

A message keeps the priority it was pushed with, and `pop` takes one of the highest.  So
while a message waits, only messages of at least its priority are taken, and it has to let
pass no more than were waiting with it or have come since.
-/

namespace Bulkmail.Sender.RunLoop

open Library

variable {Fee Token TxId : Type} {s s' t : RunLoop Fee Token TxId}
  {event : RunEvent Fee Token TxId} {entry : Entry} {priority : ℕ}

/-- How many in the queue are of at least this priority. -/
def outranking (priority : ℕ) (s : RunLoop Fee Token TxId) : ℕ :=
  s.queue.countP (priority ≤ ·.effectivePriority)

/-- The step takes a message off the queue. -/
def takes (s : RunLoop Fee Token TxId) (event : RunEvent Fee Token TxId) : Bool :=
  (s.step event).any fun s' => s'.queue.length < s.queue.length

/-- The step puts a message of at least this priority on the queue. -/
def admits (priority : ℕ) (s : RunLoop Fee Token TxId) (event : RunEvent Fee Token TxId) : Bool :=
  (s.step event).any fun s' =>
    s'.queue[s.queue.length]?.any (priority ≤ ·.effectivePriority)

/-- What a step can do to the queue. -/
theorem Stepped.queue_cases (stepped : Stepped s s') :
    s'.queue = s.queue ∨ (∃ entry, s'.queue = s.queue ++ [entry]) ∨
      ∃ k entry, s.queue[k]? = some entry ∧
        (∀ other ∈ s.queue, other.effectivePriority ≤ entry.effectivePriority) ∧
        s'.queue = s.queue.eraseIdx k := by
  have kept : s.notifyOne.queue = s.queue := by
    unfold notifyOne
    split <;> rfl
  cases stepped with
  | callPushes | requeues => exact .inr (.inl ⟨_, rfl⟩)
  | pops here found top => exact .inr (.inr ⟨_, _, found, top, rfl⟩)
  | callNotifies | taskNotifies => exact .inl kept
  | calls | permitGranted | permitPolled | findsEmpty | consumes | parks | wakes | dropAcquire
  | dropLock | dropWait | synced | resumes | finishes | taskReturns => exact .inl rfl

/-- While a message waits, a step takes only what outranks it. -/
theorem outranking_step (waits : entry ∈ s.queue) (stepped : s.step event = some s') :
    (s.takes event).toNat + s'.outranking entry.effectivePriority =
      s.outranking entry.effectivePriority + (s.admits entry.effectivePriority event).toNat := by
  simp only [takes, admits, outranking, stepped, Option.any_some]
  obtain same | ⟨pushed, grown⟩ | ⟨k, taken, found, top, shrunk⟩ := (step_spec stepped).queue_cases
  · simp [same]
  · have more := countP_append_one (fun other : Entry =>
      decide (entry.effectivePriority ≤ other.effectivePriority)) s.queue pushed
    simp [grown, more]
  · have inside : k < s.queue.length := (List.getElem?_eq_some_iff.mp found).1
    have fewer := countP_eraseIdx_add (fun other : Entry =>
      decide (entry.effectivePriority ≤ other.effectivePriority)) found
    have shorter : (s.queue.eraseIdx k).length < s.queue.length := by
      rw [List.length_eraseIdx_of_lt inside]
      omega
    have nothing : (s.queue.eraseIdx k)[s.queue.length]? = none :=
      List.getElem?_eq_none shorter.le
    simp only [top entry waits, decide_true, Bool.toNat_true] at fewer
    simp only [shrunk, nothing, shorter, decide_true, Bool.toNat_true, Option.any_none,
      Bool.toNat_false]
    omega

/-- While a message waits in the queue, fewer messages are taken than were waiting with at
    least its priority when it began or have been put there since. -/
theorem overtaken_by_rank_only {events : List (RunEvent Fee Token TxId)}
    (ran : runs step s events = some t) (waits : Throughout step (entry ∈ ·.queue) s events) :
    tally step takes s events + t.outranking entry.effectivePriority =
        s.outranking entry.effectivePriority +
          tally step (admits entry.effectivePriority) s events ∧
      tally step takes s events < s.outranking entry.effectivePriority +
        tally step (admits entry.effectivePriority) s events := by
  have balance : tally step takes s events + t.outranking entry.effectivePriority =
      s.outranking entry.effectivePriority +
        tally step (admits entry.effectivePriority) s events := by
    refine tally_balanced ?_ waits ran
    intro s event s' held stepped
    exact outranking_step held stepped
  have still : 0 < t.outranking entry.effectivePriority :=
    List.countP_pos_iff.mpr ⟨entry, waits.last ran, by simp⟩
  exact ⟨balance, by omega⟩

/-- A message of priority 5 waits while one of priority 9 that came after it is taken. -/
theorem overtaken_by_one :
    let waiting : Message := { sampleMessage with priority := 5 }
    let urgent : Message := { sampleMessage with priority := 9 }
    let before : List (RunEvent ℕ ℕ ℕ) := [.addMessage waiting 0, .lockGranted (.caller 0),
      .callPushes 0]
    let events : List (RunEvent ℕ ℕ ℕ) := [.addMessage urgent 0, .lockGranted (.caller 1),
      .callPushes 1, .permitGranted, .permitPolled, .lockGranted .loop, .pops 1]
    ∃ s t entry, runs step new before = some s ∧ runs step s events = some t ∧
      Throughout step (entry ∈ ·.queue) s events ∧ tally step takes s events = 1 ∧
      tally step takes s events < s.outranking entry.effectivePriority +
        tally step (admits entry.effectivePriority) s events := by
  intro waiting urgent before events
  let entry : Entry := ⟨0, waiting, 5⟩
  have shown : (runs step new before).bind (fun s => (runs step s events).map fun _ =>
      (decide (Throughout step (entry ∈ ·.queue) s events), tally step takes s events)) =
        some (true, 1) := by decide
  obtain ⟨s, begun, rest⟩ := Option.bind_eq_some_iff.mp shown
  obtain ⟨t, ran, now⟩ := Option.map_eq_some_iff.mp rest
  have waits : Throughout step (entry ∈ ·.queue) s events :=
    of_decide_eq_true (congrArg Prod.fst now)
  exact ⟨s, t, entry, begun, ran, waits, congrArg Prod.snd now,
    (overtaken_by_rank_only ran waits).2⟩

end Bulkmail.Sender.RunLoop
