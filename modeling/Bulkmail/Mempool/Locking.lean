import Bulkmail.Mempool.Handle

/-! # One lock, many handles

The tracker thread and any number of threads with handles share the state behind one
`RwLock`.  As on Linux, `read` blocks while a writer holds the lock or waits for it, and
`write` blocks while any guard is out.  A panic under the write guard poisons the lock,
and whoever asks next panics in turn.

Every query takes one read guard, except `estimated_blocks_to_confirm`: it keeps its
guard while `gas_ahead` takes another.  A write request between the two waits for the
first guard and keeps the second from being given out.
-/

namespace Bulkmail.Mempool

open Library MempoolInner

inductive Query where
  | classification (id : TxId)
  | isMarketable (id : TxId)
  | gasAhead (id : TxId)
  | estimatedBlocksToConfirm (id : TxId)
  | currentBaseFee
  | privateFlowRatio
  | priorityQueue
  | lastBlockGasLimit
  | findTxByAddrAndNonce (addr : Address) (nonce : ℕ)
  deriving DecidableEq

/-- Whether the query returns, rather than panics. -/
def Query.returns (s : MempoolInner) (values : List AccountQueue) : Query → Bool
  | .classification id => (s.classification values id).isSome
  | .isMarketable id => (s.isMarketable values id).isSome
  | .gasAhead id => (s.gasAhead values id).isSome
  | .estimatedBlocksToConfirm id => (s.estimatedBlocksToConfirm values id).isSome
  | .currentBaseFee | .privateFlowRatio | .priorityQueue | .lastBlockGasLimit
  | .findTxByAddrAndNonce _ _ => true

inductive Position where
  | idle
  | asking (query : Query)
  | holding (query : Query)
  /-- `gas_ahead` inside `estimated_blocks_to_confirm`, with the outer guard held. -/
  | askingAgain (id : TxId)
  | holdingBoth (id : TxId)
  | finishing
  | gone
  deriving DecidableEq

def Position.guards : Position → ℕ
  | .holding _ | .askingAgain _ | .finishing => 1
  | .holdingBoth _ => 2
  | .idle | .asking _ | .gone => 0

/-- How far the operation is from its end. -/
def Position.weight : Position → ℕ
  | .asking _ => 5
  | .holding _ => 4
  | .askingAgain _ => 3
  | .holdingBoth _ => 2
  | .finishing => 1
  | .idle | .gone => 0

structure HandleThread where
  position : Position
  todo : List Query
  deriving DecidableEq

inductive TrackerThread where
  | receiving
  | asking (event : MempoolEvent)
  | holding (event : MempoolEvent)
  | gone
  deriving DecidableEq

def TrackerThread.weight : TrackerThread → ℕ
  | .asking _ => 2
  | .holding _ => 1
  | .receiving | .gone => 0

structure Lock where
  inner : MempoolInner
  poisoned : Bool
  tracker : TrackerThread
  /-- What the channel still has to deliver. -/
  events : List MempoolEvent
  handles : List HandleThread

inductive Choice where
  | tracker
  | handle (i : ℕ) (values : List AccountQueue)
  deriving DecidableEq

namespace HandleThread

variable (readable poisoned : Bool) (s : MempoolInner) (values : List AccountQueue)

def advance (thread : HandleThread) : Option HandleThread :=
  match thread.position with
  | .idle =>
      match thread.todo with
      | [] => none
      | query :: rest => some ⟨.asking query, rest⟩
  | .asking query =>
      if readable then
        some { thread with position := if poisoned then .gone else .holding query }
      else none
  | .holding (.estimatedBlocksToConfirm id) =>
      match findTxById values id with
      | none => some { thread with position := .idle }
      | some _ => some { thread with position := .askingAgain id }
  | .holding query =>
      some { thread with position := if query.returns s values then .idle else .gone }
  | .askingAgain id =>
      if readable then
        some { thread with position := if poisoned then .gone else .holdingBoth id }
      else none
  | .holdingBoth id =>
      some { thread with position := if (s.gasAhead values id).isSome then .finishing else .gone }
  | .finishing => some { thread with position := .idle }
  | .gone => none

end HandleThread

namespace Lock

def new (inner : MempoolInner) (events : List MempoolEvent) (todos : List (List Query)) : Lock :=
  ⟨inner, false, .receiving, events, todos.map (⟨.idle, ·⟩)⟩

variable (s : Lock)

def guards : ℕ := (s.handles.map (·.position.guards)).sum

/-- `read` gives out guards: no writer holds the lock or waits for it. -/
def readable : Bool :=
  match s.tracker with
  | .asking _ | .holding _ => false
  | .receiving | .gone => true

def stepTracker : Option Lock :=
  match s.tracker with
  | .receiving =>
      match s.events with
      | [] => none
      | event :: rest => some { s with tracker := .asking event, events := rest }
  | .asking event =>
      if s.guards = 0 then
        some { s with tracker := if s.poisoned then .gone else .holding event }
      else none
  | .holding event =>
      match MempoolTracker.step s.inner event with
      | none => some { s with tracker := .gone, poisoned := true }
      | some inner => some { s with tracker := .receiving, inner }
  | .gone => none

def step : Choice → Option Lock
  | .tracker => s.stepTracker
  | .handle i values =>
      if s.inner.Yields values then
        s.handles[i]?.bind fun thread =>
          (thread.advance s.readable s.poisoned s.inner values).map fun next =>
            { s with handles := s.handles.set i next }
      else none

/-- An operation has been started, or is still to be, and has not returned. -/
def Unfinished : Prop :=
  (s.tracker ≠ .gone ∧ (s.tracker ≠ .receiving ∨ s.events ≠ [])) ∨
    ∃ thread ∈ s.handles, thread.position ≠ .gone ∧
      (thread.position ≠ .idle ∨ thread.todo ≠ [])

def Stuck : Prop := s.Unfinished ∧ ∀ choice, s.step choice = none

end Lock

/-! ## Between two reads -/

namespace HandleThread

variable {poisoned : Bool} {s : MempoolInner} {values : List AccountQueue}
variable {thread next : HandleThread}

/-- Inside `estimated_blocks_to_confirm` for a tracked transaction, with the outer guard
    held and the inner one not yet. -/
def Between (s : MempoolInner) (thread : HandleThread) : Prop :=
  match thread.position with
  | .askingAgain _ => True
  | .holding (.estimatedBlocksToConfirm id) => s.TracksId id
  | _ => False

instance : Decidable (thread.Between s) := by
  unfold Between
  split <;> infer_instance

theorem guards_of_between (between : thread.Between s) : 0 < thread.position.guards := by
  obtain ⟨position, todo⟩ := thread
  cases position with
  | askingAgain | holding => simp [Position.guards]
  | idle | asking | holdingBoth | finishing | gone => cases between

/-- A thread that returns from a query, or panics in it, is not between two reads. -/
theorem not_between_returned {returned : Bool} {todo : List Query} {position : Position}
    (settled : ¬ Between s ⟨position, todo⟩) :
    ¬ Between s ⟨if returned then position else .gone, todo⟩ := by
  cases returned with
  | true => exact settled
  | false => simp [Between]

/-- While no guards are given out, a thread neither gets between two reads nor leaves
    from there. -/
theorem between_advance_iff (yields : s.Yields values)
    (advanced : thread.advance false poisoned s values = some next) :
    next.Between s ↔ thread.Between s := by
  obtain ⟨position, todo⟩ := thread
  cases position with
  | idle =>
      cases todo with
      | nil => cases advanced
      | cons query rest =>
          cases advanced
          simp [Between]
  | asking | askingAgain | gone => cases advanced
  | holding query =>
      cases query with
      | estimatedBlocksToConfirm id =>
          simp only [advance] at advanced
          split at advanced
          · rename_i missing
            cases advanced
            simpa [Between] using findTxById_eq_none yields missing
          · rename_i tx found
            cases advanced
            have tracked := findTxById_eq_some yields found
            simpa [Between] using ⟨tx, tracked⟩
      | classification | isMarketable | gasAhead | currentBaseFee | privateFlowRatio
      | priorityQueue | lastBlockGasLimit | findTxByAddrAndNonce =>
          cases advanced
          exact iff_of_false (not_between_returned (by simp [Between])) (by simp [Between])
  | holdingBoth id =>
      cases advanced
      exact iff_of_false (not_between_returned (by simp [Between])) (by simp [Between])
  | finishing =>
      cases advanced
      simp [Between]

/-- A thread with something left to do can go on, unless it waits for a guard. -/
theorem advance_isSome {readable : Bool} (going : thread.position ≠ .gone)
    (unfinished : thread.position ≠ .idle ∨ thread.todo ≠ [])
    (served : readable ∨ 0 < thread.position.guards ∧ ¬ thread.Between s) :
    (thread.advance readable poisoned s values).isSome := by
  obtain ⟨position, todo⟩ := thread
  cases position with
  | idle =>
      cases todo with
      | nil => simp at unfinished
      | cons => rfl
  | asking =>
      have open_ : readable = true := served.resolve_right (by simp [Position.guards])
      simp [advance, open_]
  | holding query =>
      cases query with
      | estimatedBlocksToConfirm id =>
          simp only [advance]
          split <;> rfl
      | classification | isMarketable | gasAhead | currentBaseFee | privateFlowRatio
      | priorityQueue | lastBlockGasLimit | findTxByAddrAndNonce => rfl
  | askingAgain =>
      have open_ : readable = true := served.resolve_right (by simp [Between])
      simp [advance, open_]
  | holdingBoth | finishing => rfl
  | gone => exact absurd rfl going

/-- What a thread has left to do. -/
def weight (thread : HandleThread) : ℕ := 6 * thread.todo.length + thread.position.weight

theorem weight_advance {readable : Bool}
    (advanced : thread.advance readable poisoned s values = some next) :
    next.weight < thread.weight := by
  have lighter : ∀ {returned : Bool} {before after : Position} (todo : List Query),
      after.weight < before.weight →
      weight ⟨if returned then after else .gone, todo⟩ < weight ⟨before, todo⟩ := by
    intro returned before after todo less
    cases returned with
    | true => exact Nat.add_lt_add_left less _
    | false => exact Nat.add_lt_add_left (Nat.zero_lt_of_lt less) _
  obtain ⟨position, todo⟩ := thread
  cases position with
  | idle =>
      cases todo with
      | nil => cases advanced
      | cons query rest =>
          cases advanced
          simp only [weight, Position.weight, List.length_cons]
          omega
  | asking query | askingAgain id =>
      simp only [advance] at advanced
      split at advanced
      · cases advanced
        cases poisoned <;> simp [weight, Position.weight]
      · cases advanced
  | holding query =>
      cases query with
      | estimatedBlocksToConfirm id =>
          simp only [advance] at advanced
          split at advanced
          · cases advanced
            simp [weight, Position.weight]
          · cases advanced
            simp [weight, Position.weight]
      | classification | isMarketable | gasAhead | currentBaseFee | privateFlowRatio
      | priorityQueue | lastBlockGasLimit | findTxByAddrAndNonce =>
          cases advanced
          exact lighter todo (by simp [Position.weight])
  | holdingBoth id =>
      cases advanced
      exact lighter todo (by simp [Position.weight])
  | finishing =>
      cases advanced
      simp [weight, Position.weight]
  | gone => cases advanced

end HandleThread

namespace Lock

open HandleThread

variable {s t : Lock} {choice : Choice} {i : ℕ} {values : List AccountQueue}

/-- The tracker asks for the lock only while no thread is between two reads. -/
def RequestsApart (s : Lock) : Choice → Prop
  | .tracker => s.tracker = .receiving → ∀ thread ∈ s.handles, ¬ thread.Between s.inner
  | .handle _ _ => True

instance : DecidablePred s.RequestsApart
  | .tracker => inferInstanceAs (Decidable (_ → _))
  | .handle _ _ => isTrue trivial

/-- Everything a step of the tracker can do. -/
inductive TrackerStepped (s : Lock) : Lock → Prop where
  | asks {event rest} : s.tracker = .receiving → s.events = event :: rest →
      TrackerStepped s { s with tracker := .asking event, events := rest }
  | granted {event} : s.tracker = .asking event → s.guards = 0 →
      TrackerStepped s { s with tracker := .holding event }
  | refused {event} : s.tracker = .asking event → s.guards = 0 →
      TrackerStepped s { s with tracker := .gone }
  | writes {event inner} : s.tracker = .holding event →
      TrackerStepped s { s with tracker := .receiving, inner }
  | panics {event} : s.tracker = .holding event →
      TrackerStepped s { s with tracker := .gone, poisoned := true }

theorem tracker_step_spec (stepped : s.step .tracker = some t) : TrackerStepped s t := by
  simp only [step, stepTracker] at stepped
  split at stepped
  · rename_i receiving
    split at stepped
    · cases stepped
    · rename_i event rest pending
      cases stepped
      exact .asks receiving pending
  · rename_i event asking
    split at stepped
    · rename_i free
      cases stepped
      by_cases dead : s.poisoned = true
      · rw [if_pos dead]
        exact .refused asking free
      · rw [if_neg dead]
        exact .granted asking free
    · cases stepped
  · rename_i event holding
    split at stepped
    · cases stepped
      exact .panics holding
    · cases stepped
      exact .writes holding
  · cases stepped

/-- A handle's step, taken apart. -/
theorem handle_step_spec (stepped : s.step (.handle i values) = some t) :
    ∃ thread next, s.inner.Yields values ∧ s.handles[i]? = some thread ∧
      thread.advance s.readable s.poisoned s.inner values = some next ∧
      t = { s with handles := s.handles.set i next } := by
  obtain ⟨yields, rest⟩ := Option.ite_none_right_eq_some.mp stepped
  obtain ⟨thread, found, moved⟩ := Option.bind_eq_some_iff.mp rest
  obtain ⟨next, advanced, rfl⟩ := Option.map_eq_some_iff.mp moved
  exact ⟨thread, next, yields, found, advanced, rfl⟩

/-- While the tracker waits for the lock, no thread is between two reads. -/
def Apart (s : Lock) : Prop :=
  ∀ event, s.tracker = .asking event → ∀ thread ∈ s.handles, ¬ thread.Between s.inner

theorem apart_step (apart : Apart s) (requested : s.RequestsApart choice)
    (stepped : s.step choice = some t) : Apart t := by
  cases choice with
  | tracker =>
      cases tracker_step_spec stepped with
      | asks receiving => exact fun _ _ => requested receiving
      | granted | refused | writes | panics =>
          intro event asking
          cases asking
  | handle i values =>
      obtain ⟨thread, next, yields, found, advanced, rfl⟩ := handle_step_spec stepped
      intro event asking other member
      have blocked : s.readable = false := by simp [readable, show s.tracker = _ from asking]
      rw [blocked] at advanced
      cases List.mem_or_eq_of_mem_set member with
      | inl before => exact apart event asking other before
      | inr here =>
          subst here
          rw [between_advance_iff yields advanced]
          exact apart event asking thread (List.mem_of_getElem? found)

theorem step_handle_isSome {thread : HandleThread} (member : thread ∈ s.handles)
    (able : ∀ values, (thread.advance s.readable s.poisoned s.inner values).isSome) :
    ∃ choice, s.step choice ≠ none := by
  obtain ⟨i, found⟩ := List.mem_iff_getElem?.mp member
  obtain ⟨values, yields⟩ := exists_yields s.inner
  obtain ⟨next, advanced⟩ := Option.isSome_iff_exists.mp (able values)
  exact ⟨.handle i values, by simp [step, yields, found, advanced]⟩

/-- A guard that is out has an owner. -/
theorem exists_guard (held : s.guards ≠ 0) : ∃ thread ∈ s.handles, 0 < thread.position.guards := by
  by_contra none_
  refine held (List.sum_eq_zero fun guards member => ?_)
  obtain ⟨thread, inside, rfl⟩ := List.mem_map.mp member
  exact Nat.eq_zero_of_not_pos fun positive => none_ ⟨thread, inside, positive⟩

theorem not_stuck (apart : Apart s) : ¬ s.Stuck := by
  intro stuck
  obtain ⟨unfinished, blocked⟩ := stuck
  have stops : ∀ thread ∈ s.handles, ¬ ∀ values,
      (thread.advance s.readable s.poisoned s.inner values).isSome := by
    intro thread member able
    obtain ⟨choice, taken⟩ := step_handle_isSome member able
    exact taken (blocked choice)
  have waits : ∀ event, s.tracker = .asking event → s.guards ≠ 0 := by
    intro event asking free
    have taken := blocked .tracker
    simp [step, stepTracker, asking, free] at taken
  have quiet : s.readable = true → ∀ thread ∈ s.handles,
      ¬ (thread.position ≠ .gone ∧ (thread.position ≠ .idle ∨ thread.todo ≠ [])) := by
    intro open_ thread member going
    exact stops thread member fun values => advance_isSome going.1 going.2 (.inl open_)
  cases tracker : s.tracker with
  | receiving =>
      have empty : s.events = [] := by
        by_contra pending
        obtain ⟨event, rest, more⟩ := List.exists_cons_of_ne_nil pending
        have taken := blocked .tracker
        simp [step, stepTracker, tracker, more] at taken
      cases unfinished with
      | inl pending => simp [tracker, empty] at pending
      | inr busy =>
          obtain ⟨thread, member, going⟩ := busy
          exact quiet (by simp [readable, tracker]) thread member going
  | asking event =>
      obtain ⟨thread, member, held⟩ := exists_guard (waits event tracker)
      have apart := apart event tracker thread member
      refine stops thread member fun values => advance_isSome ?_ (.inl ?_) (.inr ⟨held, apart⟩)
      · intro same
        simp [same, Position.guards] at held
      · intro same
        simp [same, Position.guards] at held
  | holding event =>
      have taken := blocked .tracker
      simp only [step, stepTracker, tracker] at taken
      split at taken <;> cases taken
  | gone =>
      cases unfinished with
      | inl pending => exact pending.1 tracker
      | inr busy =>
          obtain ⟨thread, member, going⟩ := busy
          exact quiet (by simp [readable, tracker]) thread member going

/-! ## A request between two reads -/

/-- The tracker waits for a guard whose owner waits for the tracker. -/
def Doomed (s : Lock) : Prop :=
  (∃ event, s.tracker = .asking event) ∧ ∃ thread ∈ s.handles, thread.Between s.inner

theorem doomed_step (doomed : Doomed s) (stepped : s.step choice = some t) : Doomed t := by
  obtain ⟨⟨event, asking⟩, thread, member, between⟩ := doomed
  cases choice with
  | tracker =>
      have out : s.guards ≠ 0 := by
        intro free
        have owned := List.sum_eq_zero_iff.mp free _ (List.mem_map_of_mem member)
        exact absurd owned (guards_of_between between).ne'
      cases tracker_step_spec stepped with
      | asks here => cases here.symm.trans asking
      | granted _ free | refused _ free => exact absurd free out
      | writes here | panics here => cases here.symm.trans asking
  | handle i values =>
      obtain ⟨owner, next, yields, found, advanced, rfl⟩ := handle_step_spec stepped
      have blocked : s.readable = false := by simp [readable, asking]
      rw [blocked] at advanced
      refine ⟨⟨event, asking⟩, ?_⟩
      by_cases same : owner = thread
      · subst same
        have inside := (List.getElem?_eq_some_iff.mp found).1
        exact ⟨next, List.mem_set inside next, (between_advance_iff yields advanced).mpr between⟩
      · exact ⟨thread, mem_set_of_mem found same member, between⟩

/-- What all threads have left to do. -/
def weight (s : Lock) : ℕ :=
  3 * s.events.length + s.tracker.weight + (s.handles.map HandleThread.weight).sum

theorem weight_step (stepped : s.step choice = some t) : t.weight < s.weight := by
  cases choice with
  | tracker =>
      cases tracker_step_spec stepped with
      | asks receiving pending =>
          simp only [weight, receiving, pending, TrackerThread.weight, List.length_cons]
          omega
      | granted asking => simp [weight, asking, TrackerThread.weight]
      | refused asking => simp [weight, asking, TrackerThread.weight]
      | writes holding => simp [weight, holding, TrackerThread.weight]
      | panics holding => simp [weight, holding, TrackerThread.weight]
  | handle i values =>
      obtain ⟨thread, next, -, found, advanced, rfl⟩ := handle_step_spec stepped
      have lighter := weight_advance advanced
      have moved := sum_map_set_add HandleThread.weight found next
      simp only [weight]
      omega

/-- Once the tracker has asked between two reads, the threads run into a deadlock. -/
theorem deadlock_of_doomed (doomed : Doomed s) :
    ∃ more t, runs step s more = some t ∧ t.Stuck := by
  obtain ⟨more, t, ran, ended⟩ := exists_run_to_end (fun _ _ _ => weight_step) s
  have still := runs_invariant (fun _ _ _ held stepped => doomed_step held stepped) doomed ran
  obtain ⟨⟨event, asking⟩, -⟩ := still
  exact ⟨more, t, ran, .inl (by simp [asking]), ended⟩

/-- No run whose write requests keep apart from nested reads gets stuck, and any other
    request leads to a deadlock. -/
theorem no_deadlock_when_apart (inner : MempoolInner) (events : List MempoolEvent)
    (todos : List (List Query)) (choices : List Choice) :
    (EachStep step RequestsApart (new inner events todos) choices →
      Throughout step (fun s => ¬ s.Stuck) (new inner events todos) choices) ∧
    ∀ s, runs step (new inner events todos) choices = some s → s.events ≠ [] →
      ¬ s.RequestsApart .tracker → ∃ more t, runs step s more = some t ∧ t.Stuck := by
  constructor
  · refine Throughout.of_invariant ?_ (fun _ => not_stuck) ?_
    · exact fun s choice t apart requested stepped => apart_step apart requested stepped
    · intro event asking
      cases asking
  · intro s ran pending nested
    simp only [RequestsApart, Classical.not_imp, not_forall, Classical.not_not] at nested
    obtain ⟨receiving, thread, member, between⟩ := nested
    obtain ⟨event, rest, more⟩ := List.exists_cons_of_ne_nil pending
    let asked : Lock := { s with tracker := .asking event, events := rest }
    have stepped : s.step .tracker = some asked := by
      simp [step, stepTracker, receiving, more, asked]
    have doomed : asked.Doomed := ⟨⟨event, rfl⟩, thread, member, between⟩
    obtain ⟨later, t, reached, stuck⟩ := deadlock_of_doomed doomed
    exact ⟨.tracker :: later, t, by simp [runs, stepped, reached], stuck⟩

/-- A whole `estimated_blocks_to_confirm` fits in front of a write. -/
theorem no_deadlock_one_after_another :
    let inner := sampleRun 5 [.pendingTransaction (sampleTx 1 0 20 5)]
    let values : List AccountQueue := [⟨0, [some (sampleTx 1 0 20 5)]⟩]
    let read : Choice := .handle 0 values
    let start := new inner [.pendingTransaction (sampleTx 1 1 20 5)]
      [[.estimatedBlocksToConfirm 0]]
    let choices := [read, read, read, read, read, read, .tracker, .tracker, .tracker]
    ((runs step start choices).map fun s => (s.tracker, s.events, s.handles)) =
      some (.receiving, [], [⟨.idle, []⟩]) ∧
    Throughout step (fun s => ¬ s.Stuck) start choices := by
  intro inner values read start choices
  exact ⟨by decide +kernel, (no_deadlock_when_apart _ _ _ choices).1 (by decide +kernel)⟩

/-- The tracker asks for the lock while `estimated_blocks_to_confirm` is between its two
    reads, and neither thread can move. -/
theorem deadlock_between_reads :
    let inner := sampleRun 5 [.pendingTransaction (sampleTx 1 0 20 5)]
    let values : List AccountQueue := [⟨0, [some (sampleTx 1 0 20 5)]⟩]
    let read : Choice := .handle 0 values
    let event : MempoolEvent := .pendingTransaction (sampleTx 1 1 20 5)
    let start := new inner [event] [[.estimatedBlocksToConfirm 0]]
    ∃ s, runs step start [read, read, .tracker, read] = some s ∧
      (s.tracker, s.handles) = (.asking event, [⟨.askingAgain 0, []⟩]) ∧ s.Stuck := by
  intro inner values read event start
  have shown : ((runs step start [read, read, .tracker, read]).map fun s =>
      (s.tracker, s.handles)) = some (.asking event, [⟨.askingAgain 0, []⟩]) := by decide +kernel
  obtain ⟨s, ran, now⟩ := Option.map_eq_some_iff.mp shown
  have tracker : s.tracker = .asking event := congrArg (·.1) now
  have handles : s.handles = [⟨.askingAgain 0, []⟩] := congrArg (·.2) now
  refine ⟨s, ran, now, .inl (by simp [tracker]), fun choice => ?_⟩
  cases choice with
  | tracker => simp [step, stepTracker, tracker, guards, handles, Position.guards]
  | handle i values =>
      cases i with
      | zero => simp [step, handles, readable, tracker, HandleThread.advance]
      | succ i => simp [step, handles]

end Lock

end Bulkmail.Mempool
