import Bulkmail.Ethereum.FeeSystem
import Bulkmail.Sender.Settling

/-! # The whole `Sender<Eth>`

The run loop with its callers and blocks, the message tasks it spawns, and the nonce and
fee managers these share, in one state.  A task's phase is kept by the run loop; here it
gets the position inside the adapter's call.  The tasks under a nonce manager and under a
fee manager were modelled with nobody to start them, and the run loop with an adapter that
may answer anything: both are shown to be what this sender does.
-/

namespace Bulkmail.Ethereum

open Library Sender

structure EthSender where
  chainId : ℕ
  runLoop : RunLoop EthFeeParams ℕ TxHash
  /-- Where each task stands inside the call it awaits. -/
  calls : List EthCall
  nonces : NonceState
  gas : GasPriceManager
  /-- The estimate each task has read in its `calculate_priority_fee`. -/
  basePriorityFee : ℕ → Option ℕ
  updates : List FeeUpdate
  /-- How many tasks have panicked before they came to `add_message`. -/
  panics : ℕ

inductive EthSenderEvent where
  /-- Callers, the loop, the lock and the ends of tasks: nothing the adapter is asked for. -/
  | loop (event : RunEvent EthFeeParams ℕ TxHash)
  | synced (fetched : Except ChainError ℕ)
  | task (i nowMs : ℕ) (answer : EthAnswer)
  | readsEstimate (i : ℕ)
  | quotes (i nowMs : ℕ)
  | records (j confirmationTime : ℕ)
  | blends (j : ℕ)

namespace EthSender

def new (chainId currentNonce : ℕ) : EthSender where
  chainId := chainId
  runLoop := .new
  calls := []
  nonces := .new currentNonce
  gas := .new
  basePriorityFee := fun _ => none
  updates := []
  panics := 0

/-- The task `i` goes on with an answer of the adapter; `add_message` asks for none. -/
def advanceTask (s : EthSender) (i nowMs : ℕ) (answer : EthAnswer) : Option EthSender :=
  match s.runLoop.tasks[i]?, s.calls[i]? with
  | some ⟨_, .running (.adding _)⟩, _ => none
  | some ⟨id, .running phase⟩, some call =>
      (EthTask.advance s.chainId nowMs s.nonces ⟨phase, call⟩ answer).map fun (next, nonces) =>
        { s with
          runLoop := s.runLoop.proceed i id next.phase
          calls := s.calls.set i next.call
          nonces
          updates := s.updates ++ next.opensUpdate
          panics := s.panics + (decide (next = .panicked)).toNat }
  | _, _ => none

def step (s : EthSender) : EthSenderEvent → Option EthSender
  | .loop (.synced _) | .loop (.resumed _ _ _) => none
  | .loop (.pops k) =>
      (s.runLoop.step (.pops k)).map fun runLoop => { s with runLoop, calls := s.calls ++ [.entry] }
  | .loop event => (s.runLoop.step event).map fun runLoop => { s with runLoop }
  | .synced fetched =>
      let (result, nonces) := s.nonces.syncNonce fetched
      (s.runLoop.step (.synced result.isOk)).map fun runLoop => { s with runLoop, nonces }
  | .task _ _ (.fee _) => none
  | .task i nowMs answer => s.advanceTask i nowMs answer
  | .readsEstimate i =>
      match s.runLoop.tasks[i]? with
      | some ⟨_, .running (.feeParams _ _ _)⟩ =>
          some { s with
            basePriorityFee := Function.update s.basePriorityFee i (some s.gas.priorityFee) }
      | _ => none
  | .quotes i nowMs =>
      match s.runLoop.tasks[i]?, s.basePriorityFee i with
      | some ⟨id, .running (.feeParams _ _ priority)⟩, some basePriorityFee =>
          match s.gas.calculatePriorityFee basePriorityFee priority with
          | none =>
              some { s with
                runLoop := s.runLoop.settle i id .panicked
                panics := s.panics + 1 }
          | some priorityFee =>
              s.advanceTask i nowMs (.fee (.ok ⟨initialBaseFee, priorityFee⟩))
      | _, _ => none
  | .records j confirmationTime =>
      match s.updates[j]? with
      | some (.recording used) =>
          some { s with
            gas := s.gas.recordConfirmationTime confirmationTime
            updates := s.updates.set j (.blending used) }
      | _ => none
  | .blends j =>
      match s.updates[j]? with
      | some (.blending used) =>
          (s.gas.blendPriorityFee used).map fun gas =>
            { s with gas, updates := s.updates.set j .done }
      | _ => none

def Reachable (s : EthSender) : Prop :=
  ∃ chainId currentNonce events, runs step (new chainId currentNonce) events = some s

variable {s s' : EthSender} {event : EthSenderEvent} {i nowMs : ℕ} {answer : EthAnswer}

theorem advanceTask_spec (advanced : s.advanceTask i nowMs answer = some s') :
    ∃ id phase call next nonces, s.runLoop.tasks[i]? = some ⟨id, .running phase⟩ ∧
      s.calls[i]? = some call ∧
      EthTask.advance s.chainId nowMs s.nonces ⟨phase, call⟩ answer = some (next, nonces) ∧
      s' = { s with
        runLoop := s.runLoop.proceed i id next.phase
        calls := s.calls.set i next.call
        nonces
        updates := s.updates ++ next.opensUpdate
        panics := s.panics + (decide (next = .panicked)).toNat } := by
  unfold advanceTask at advanced
  split at advanced
  · cases advanced
  · rename_i id phase call _ found there
    obtain ⟨⟨next, nonces⟩, moved, rfl⟩ := Option.map_eq_some_iff.mp advanced
    exact ⟨id, phase, call, next, nonces, found, there, moved, rfl⟩
  · cases advanced

/-! ## What a step does to the tasks -/

/-- A task is over, or was about to put its message back and holds no nonce. -/
inductive Retires (tasks : List (SpawnedTask EthFeeParams ℕ TxHash)) :
    List (SpawnedTask EthFeeParams ℕ TxHash) → Prop where
  | none : Retires tasks tasks
  | one {i : ℕ} {id : ℕ} {before after} : tasks[i]? = some ⟨id, before⟩ →
      (∀ phase, after ≠ .running phase) →
      (∀ phase, before = .running phase → ∃ msg, phase = .adding msg) →
      Retires tasks (tasks.set i ⟨id, after⟩)

theorem tasks_settle (runLoop : RunLoop EthFeeParams ℕ TxHash) (i id : ℕ) (exit : Exit) :
    ∃ after, (∀ phase, after ≠ .running phase) ∧
      (runLoop.settle i id exit).tasks = runLoop.tasks.set i ⟨id, after⟩ := by
  cases exit with
  | requeued => exact ⟨.notifying, by simp, rfl⟩
  | confirmed | failed | exhausted | abandoned | panicked => exact ⟨.returning, by simp, rfl⟩

/-- The loop's own steps, and those of its callers, bring no task any further. -/
theorem retires_loop {runLoop runLoop' : RunLoop EthFeeParams ℕ TxHash}
    {event : RunEvent EthFeeParams ℕ TxHash} (pops : ∀ k, event ≠ .pops k)
    (resumed : ∀ i nowMs answer, event ≠ .resumed i nowMs answer)
    (stepped : runLoop.step event = some runLoop') : Retires runLoop.tasks runLoop'.tasks := by
  cases event with
  | pops k => exact absurd rfl (pops k)
  | resumed i nowMs answer => exact absurd rfl (resumed i nowMs answer)
  | taskPushes i nowMs =>
      simp only [RunLoop.step] at stepped
      split at stepped
      · rename_i id msg found
        obtain ⟨-, pushed⟩ := Option.ite_none_right_eq_some.mp stepped
        obtain ⟨next, resumed, rfl⟩ := Option.map_eq_some_iff.mp pushed
        cases Phase.resume_spec resumed with
        | addPanic | added => exact .one found (by simp) (by simp)
      · cases stepped
  | taskNotifies i =>
      simp only [RunLoop.step] at stepped
      split at stepped
      · rename_i id found
        cases stepped
        exact .one found (by simp) (by simp)
      · cases stepped
  | taskReturns i =>
      simp only [RunLoop.step] at stepped
      split at stepped
      · rename_i id found
        cases stepped
        exact .one found (by simp) (by simp)
      · cases stepped
  | addMessage msg nowMs =>
      cases stepped
      exact .none
  | callNotifies k =>
      simp only [RunLoop.step] at stepped
      split at stepped
      · cases stepped
        rw [RunLoop.tasks_notifyOne]
        exact .none
      · cases stepped
  | callDropped k =>
      simp only [RunLoop.step] at stepped
      split at stepped
      · cases stepped
        exact .none
      · cases stepped
  | callPushes k =>
      simp only [RunLoop.step] at stepped
      split at stepped
      · obtain ⟨-, pushed⟩ := Option.ite_none_right_eq_some.mp stepped
        split at pushed <;> cases pushed <;> exact .none
      · cases stepped
  | lockGranted | permitGranted | permitPolled | findsEmpty | wakes | synced =>
      obtain ⟨-, moved⟩ := Option.ite_none_right_eq_some.mp stepped
      cases moved
      exact .none
  | polls =>
      obtain ⟨-, polled⟩ := Option.ite_none_right_eq_some.mp stepped
      split at polled <;> cases polled <;> exact .none
  | block | streamClosed =>
      simp only [RunLoop.step, RunLoop.dropNext] at stepped
      split at stepped <;> cases stepped <;> exact .none

/-- The state after the task `i` has been brought to `next` by the adapter. -/
def advanced (s : EthSender) (i id : ℕ) (next : EthTask) (nonces : NonceState) : EthSender :=
  { s with
    runLoop := s.runLoop.proceed i id next.phase
    calls := s.calls.set i next.call
    nonces
    updates := s.updates ++ next.opensUpdate
    panics := s.panics + (decide (next = .panicked)).toNat }

/-- Everything a step can do. -/
inductive Stepped (s : EthSender) : EthSender → Prop where
  | loop {runLoop} : RunLoop.Stepped s.runLoop runLoop → Retires s.runLoop.tasks runLoop.tasks →
      Stepped s { s with runLoop }
  | pops {runLoop id msg} : RunLoop.Stepped s.runLoop runLoop →
      runLoop.tasks = s.runLoop.tasks ++ [⟨id, .running (.starting msg)⟩] →
      Stepped s { s with runLoop, calls := s.calls ++ [.entry] }
  | synced {runLoop fetched} : RunLoop.Stepped s.runLoop runLoop →
      runLoop.tasks = s.runLoop.tasks →
      Stepped s { s with runLoop, nonces := (s.nonces.syncNonce fetched).2 }
  | task {i id nowMs : ℕ} {phase call answer next nonces} : (∀ result, answer ≠ .fee result) →
      s.runLoop.tasks[i]? = some ⟨id, .running phase⟩ → s.calls[i]? = some call →
      EthTask.advance s.chainId nowMs s.nonces ⟨phase, call⟩ answer = some (next, nonces) →
      Stepped s (s.advanced i id next nonces)
  | readsEstimate {i id : ℕ} {msg nonce priority} :
      s.runLoop.tasks[i]? = some ⟨id, .running (.feeParams msg nonce priority)⟩ →
      Stepped s { s with
        basePriorityFee := Function.update s.basePriorityFee i (some s.gas.priorityFee) }
  | quotePanic {i id : ℕ} {msg nonce priority base} :
      s.runLoop.tasks[i]? = some ⟨id, .running (.feeParams msg nonce priority)⟩ →
      s.basePriorityFee i = some base → s.gas.calculatePriorityFee base priority = none →
      Stepped s { s with
        runLoop := s.runLoop.settle i id .panicked, panics := s.panics + 1 }
  | quoted {i id nowMs : ℕ} {msg nonce priority base call priorityFee next nonces} :
      s.runLoop.tasks[i]? = some ⟨id, .running (.feeParams msg nonce priority)⟩ →
      s.calls[i]? = some call → s.basePriorityFee i = some base →
      s.gas.calculatePriorityFee base priority = some priorityFee →
      EthTask.advance s.chainId nowMs s.nonces ⟨.feeParams msg nonce priority, call⟩
        (.fee (.ok ⟨initialBaseFee, priorityFee⟩)) = some (next, nonces) →
      Stepped s (s.advanced i id next nonces)
  | records {j used confirmationTime : ℕ} : s.updates[j]? = some (.recording used) →
      Stepped s { s with
        gas := s.gas.recordConfirmationTime confirmationTime
        updates := s.updates.set j (.blending used) }
  | blends {j used : ℕ} {gas} : s.updates[j]? = some (.blending used) →
      s.gas.blendPriorityFee used = some gas →
      Stepped s { s with gas, updates := s.updates.set j .done }

theorem loop_spec {event : RunEvent EthFeeParams ℕ TxHash}
    (stepped : s.step (.loop event) = some s') : Stepped s s' := by
  cases event with
  | synced | resumed => cases stepped
  | pops k =>
      obtain ⟨runLoop, popped, rfl⟩ := Option.map_eq_some_iff.mp stepped
      have spec := RunLoop.step_spec popped
      obtain ⟨-, pops⟩ := Option.ite_none_right_eq_some.mp popped
      obtain ⟨⟨entry, rest⟩, -, rfl⟩ := Option.map_eq_some_iff.mp pops
      exact .pops spec rfl
  | addMessage msg nowMs =>
      have moved : s.runLoop.step (.addMessage msg nowMs) = some _ := rfl
      cases stepped
      exact .loop (RunLoop.step_spec moved) .none
  | callDropped | callPushes | callNotifies | lockGranted | permitGranted | permitPolled
  | findsEmpty | polls | wakes | block | streamClosed | taskPushes | taskNotifies | taskReturns =>
      obtain ⟨runLoop, moved, rfl⟩ := Option.map_eq_some_iff.mp stepped
      exact .loop (RunLoop.step_spec moved) (retires_loop (by simp) (by simp) moved)

theorem task_spec (priced : ∀ result, answer ≠ .fee result)
    (stepped : s.step (.task i nowMs answer) = some s') : Stepped s s' := by
  have advanced : s.advanceTask i nowMs answer = some s' := by
    cases answer with
    | fee result => exact absurd rfl (priced result)
    | ready | sent | registered | watched | receipt => exact stepped
  obtain ⟨id, phase, call, next, nonces, found, there, moved, rfl⟩ := advanceTask_spec advanced
  exact .task priced found there moved

theorem quotes_spec (stepped : s.step (.quotes i nowMs) = some s') : Stepped s s' := by
  simp only [step] at stepped
  split at stepped
  · rename_i id msg nonce priority base found known
    split at stepped
    · rename_i overflow
      cases stepped
      exact .quotePanic found known overflow
    · rename_i priorityFee calculated
      obtain ⟨id', phase, call, next, nonces, same, there, moved, rfl⟩ := advanceTask_spec stepped
      cases found.symm.trans same
      exact .quoted found there known calculated moved
  · cases stepped

theorem step_spec (stepped : s.step event = some s') : Stepped s s' := by
  cases event with
  | loop event => exact loop_spec stepped
  | synced fetched =>
      obtain ⟨runLoop, moved, rfl⟩ := Option.map_eq_some_iff.mp stepped
      have spec := RunLoop.step_spec moved
      obtain ⟨-, resumed⟩ := Option.ite_none_right_eq_some.mp moved
      cases resumed
      exact .synced spec rfl
  | task i nowMs answer =>
      refine task_spec (fun result same => ?_) stepped
      subst same
      cases stepped
  | readsEstimate i =>
      simp only [step] at stepped
      split at stepped
      · rename_i found
        cases stepped
        exact .readsEstimate found
      · cases stepped
  | quotes i nowMs => exact quotes_spec stepped
  | records j confirmationTime =>
      simp only [step] at stepped
      split at stepped
      · rename_i used found
        cases stepped
        exact .records found
      · cases stepped
  | blends j =>
      simp only [step] at stepped
      split at stepped
      · rename_i used found
        obtain ⟨gas, blended, rfl⟩ := Option.map_eq_some_iff.mp stepped
        exact .blends found blended
      · cases stepped

theorem Reachable.step (reached : Reachable s) (stepped : s.step event = some s') :
    Reachable s' := by
  obtain ⟨chainId, currentNonce, events, ran⟩ := reached
  refine ⟨chainId, currentNonce, events ++ [event], ?_⟩
  simp only [runs_append, ran, runs, stepped, Option.bind_some]

/-! ## What the run loop sees -/

/-- Whatever the adapter does, it is something the run loop allows for. -/
theorem runLoop_step (stepped : Stepped s s') :
    s'.runLoop = s.runLoop ∨ RunLoop.Stepped s.runLoop s'.runLoop := by
  cases stepped with
  | loop moved | pops moved | synced moved => exact .inr moved
  | task _ found _ moved | quoted found _ _ _ moved =>
      exact .inr (RunLoop.proceed_spec found (EthTask.advance_spec moved).carriesOn)
  | @quotePanic i id msg nonce priority base found =>
      have carries : Phase.CarriesOn (.feeParams msg nonce priority : EthPhase)
        (.finished .panicked) := Phase.carriesOn_nothing rfl
      exact .inr (RunLoop.settle_spec found carries)
  | readsEstimate | records | blends => exact .inl rfl

/-- An invariant of the run loop holds of the sender's. -/
theorem Reachable.runLoop {inv : RunLoop EthFeeParams ℕ TxHash → Prop} (initially : inv .new)
    (preserves : ∀ {s s'}, inv s → RunLoop.Stepped s s' → inv s') (reached : Reachable s) :
    inv s.runLoop := by
  obtain ⟨chainId, currentNonce, events, ran⟩ := reached
  let kept : EthSender → Prop := fun s => inv s.runLoop
  have step : ∀ s event s', kept s → s.step event = some s' → kept s' := by
    intro s event s' held stepped
    cases runLoop_step (step_spec stepped) with
    | inl same => exact (congrArg inv same).mpr held
    | inr moved => exact preserves held moved
  have start : kept (new chainId currentNonce) := initially
  have final : kept s := runs_invariant step start ran
  exact final

theorem Reachable.custody (reached : Reachable s) : RunLoop.Custody s.runLoop :=
  reached.runLoop RunLoop.custody_new RunLoop.custody_step

/-! ## What the fee manager and the tasks see -/

/-- The state of the tasks under one fee manager that this sender is in.  What such a task
    does once it is over is nobody's business. -/
structure Represents (s : EthSender) (f : FeeSystem) : Prop where
  chainId : f.system.chainId = s.chainId
  nonces : f.system.nonces = s.nonces
  gas : f.gas = s.gas
  read : f.basePriorityFee = s.basePriorityFee
  updates : f.updates = s.updates
  calls : s.calls.length = s.runLoop.tasks.length
  slots : f.system.tasks.length = s.runLoop.tasks.length
  running : ∀ {i id : ℕ} {phase call}, s.runLoop.tasks[i]? = some ⟨id, .running phase⟩ →
    s.calls[i]? = some call → f.system.tasks[i]? = some ⟨phase, call⟩

/-- Every spawned task has a place inside its call. -/
theorem Represents.exists_call {s : EthSender} {f : FeeSystem} {i : ℕ}
    {task : SpawnedTask EthFeeParams ℕ TxHash} (represents : Represents s f)
    (found : s.runLoop.tasks[i]? = some task) : ∃ call, s.calls[i]? = some call := by
  have inside := (List.getElem?_eq_some_iff.mp found).1
  exact ⟨_, List.getElem?_eq_getElem (represents.calls.symm ▸ inside)⟩

theorem represents_new (chainId currentNonce : ℕ) :
    Represents (new chainId currentNonce) (.new chainId currentNonce) where
  chainId := rfl
  nonces := rfl
  gas := rfl
  read := rfl
  updates := rfl
  calls := rfl
  slots := rfl
  running found := by cases found

variable {f : FeeSystem}

theorem Retires.running {tasks tasks' : List (SpawnedTask EthFeeParams ℕ TxHash)}
    (retires : Retires tasks tasks') {j id : ℕ} {phase : EthPhase}
    (found : tasks'[j]? = some ⟨id, .running phase⟩) : tasks[j]? = some ⟨id, .running phase⟩ := by
  cases retires with
  | none => exact found
  | @one i id' before after there ended _ =>
      rw [List.getElem?_set] at found
      split at found
      · split at found
        · cases found
          exact absurd rfl (ended phase)
        · cases found
      · exact found

theorem Retires.length {tasks tasks' : List (SpawnedTask EthFeeParams ℕ TxHash)}
    (retires : Retires tasks tasks') : tasks'.length = tasks.length := by
  cases retires with
  | none => rfl
  | one => exact List.length_set

/-- Steps that start no task and bring no running one any further. -/
theorem represents_loop {runLoop : RunLoop EthFeeParams ℕ TxHash} {panics : ℕ}
    (represents : Represents s f) (length : runLoop.tasks.length = s.runLoop.tasks.length)
    (running : ∀ {i id : ℕ} {phase}, runLoop.tasks[i]? = some ⟨id, .running phase⟩ →
      s.runLoop.tasks[i]? = some ⟨id, .running phase⟩) :
    Represents { s with runLoop, panics } f :=
  { represents with
    calls := represents.calls.trans length.symm
    slots := represents.slots.trans length.symm
    running := fun found there => represents.running (running found) there }

theorem represents_pops {runLoop : RunLoop EthFeeParams ℕ TxHash} {id : ℕ} {msg : Message}
    (represents : Represents s f)
    (spawned : runLoop.tasks = s.runLoop.tasks ++ [⟨id, .running (.starting msg)⟩]) :
    Represents { s with runLoop, calls := s.calls ++ [.entry] }
      { f with system.tasks := f.system.tasks ++ [.start msg] } :=
  { represents with
    calls := by simp [spawned, represents.calls]
    slots := by simp [spawned, represents.slots]
    running := by
      intro i id' phase call found there
      simp only [spawned] at found
      rcases Nat.lt_or_ge i s.runLoop.tasks.length with inside | outside
      · rw [List.getElem?_append_left inside] at found
        rw [List.getElem?_append_left (represents.calls.symm ▸ inside)] at there
        rw [List.getElem?_append_left (represents.slots.symm ▸ inside)]
        exact represents.running found there
      · rw [List.getElem?_append_right outside] at found
        rw [List.getElem?_append_right (represents.calls.symm ▸ outside)] at there
        rw [List.getElem?_append_right (represents.slots.symm ▸ outside)]
        rw [represents.calls] at there
        rw [represents.slots]
        generalize i - s.runLoop.tasks.length = k at found there ⊢
        cases k with
        | zero =>
            cases found
            cases there
            rfl
        | succ => cases found }

/-- The task `i` goes on in both. -/
theorem represents_advanced {i : ℕ} {task : SpawnedTask EthFeeParams ℕ TxHash}
    (represents : Represents s f) (found : s.runLoop.tasks[i]? = some task) (id : ℕ)
    (next : EthTask) (nonces : NonceState) (mined confirmed : Finset ℕ) :
    Represents (s.advanced i id next nonces)
      { f with
        system := ⟨f.system.chainId, nonces, f.system.tasks.set i next, mined, confirmed⟩
        updates := f.updates ++ next.opensUpdate } := by
  obtain ⟨queue, finished, stage, -, only, same⟩ :=
    RunLoop.proceed_eq (s := s.runLoop) i id next.phase
  have inside := (List.getElem?_eq_some_iff.mp found).1
  refine ⟨represents.chainId, rfl, represents.gas, represents.read, ?_, ?_, ?_, ?_⟩
  · exact congrArg (· ++ next.opensUpdate) represents.updates
  · simp only [advanced, same, List.length_set, represents.calls]
  · simp only [advanced, same, List.length_set, represents.slots]
  · intro j id' phase call there at_
    simp only [advanced, same] at there at_
    by_cases here : i = j
    · subst here
      rw [List.getElem?_set_self inside] at there
      rw [List.getElem?_set_self (represents.calls.symm ▸ inside)] at at_
      rw [List.getElem?_set_self (represents.slots.symm ▸ inside)]
      cases at_
      have running : stage = .running phase :=
        congrArg SpawnedTask.stage (Option.some.inj there)
      rw [only phase running]
    · rw [List.getElem?_set_ne here] at there at_ ⊢
      exact represents.running there at_

/-- The system below takes the step the task takes here. -/
theorem Represents.taken {i id nowMs : ℕ} {phase : EthPhase} {call : EthCall} {answer : EthAnswer}
    {next : EthTask} {nonces : NonceState} (represents : Represents s f)
    (found : s.runLoop.tasks[i]? = some ⟨id, .running phase⟩) (there : s.calls[i]? = some call)
    (moved : EthTask.advance s.chainId nowMs s.nonces ⟨phase, call⟩ answer = some (next, nonces)) :
    f.system.step (.task i nowMs answer) = some
      ⟨f.system.chainId, nonces, f.system.tasks.set i next,
        EthTask.minedBy ⟨phase, call⟩ answer ∪ f.system.mined,
        EthTask.confirmedBy ⟨phase, call⟩ answer ∪ f.system.confirmed⟩ := by
  have known := represents.running found there
  rw [← represents.chainId, ← represents.nonces] at moved
  simp only [System.step, known, moved, Option.bind_eq_bind, Option.bind_some, Option.pure_def]

theorem represents_task {i id nowMs : ℕ} {phase : EthPhase} {call : EthCall} {answer : EthAnswer}
    {next : EthTask} {nonces : NonceState} (represents : Represents s f)
    (priced : ∀ result, answer ≠ .fee result)
    (found : s.runLoop.tasks[i]? = some ⟨id, .running phase⟩) (there : s.calls[i]? = some call)
    (moved : EthTask.advance s.chainId nowMs s.nonces ⟨phase, call⟩ answer = some (next, nonces)) :
    ∃ f', f.step (.system (.task i nowMs answer)) = some f' ∧
      Represents (s.advanced i id next nonces) f' := by
  have taken := represents.taken found there moved
  have known := represents.running found there
  have opened : f.step (.system (.task i nowMs answer)) =
      (f.system.step (.task i nowMs answer)).bind fun system => system.tasks[i]?.bind fun task =>
        some { f with system, updates := f.updates ++ task.opensUpdate } := by
    cases answer with
    | fee result => exact absurd rfl (priced result)
    | ready | sent | registered | watched | receipt => rfl
  rw [taken, Option.bind_some, getElem?_set_of_found next known, Option.bind_some] at opened
  exact ⟨_, opened, represents_advanced represents found id next nonces _ _⟩

theorem represents_quoted {i id nowMs : ℕ} {msg : Message} {nonce priority base : ℕ}
    {call : EthCall} {priorityFee : ℕ} {next : EthTask} {nonces : NonceState}
    (represents : Represents s f)
    (found : s.runLoop.tasks[i]? = some ⟨id, .running (.feeParams msg nonce priority)⟩)
    (there : s.calls[i]? = some call) (known : s.basePriorityFee i = some base)
    (calculated : s.gas.calculatePriorityFee base priority = some priorityFee)
    (moved : EthTask.advance s.chainId nowMs s.nonces ⟨.feeParams msg nonce priority, call⟩
      (.fee (.ok ⟨initialBaseFee, priorityFee⟩)) = some (next, nonces)) :
    ∃ f', f.step (.quotes i nowMs) = some f' ∧ Represents (s.advanced i id next nonces) f' := by
  have taken := represents.taken found there moved
  have running := represents.running found there
  have quiet : next.opensUpdate = [] := by
    cases EthTask.advance_spec moved with
    | price spec =>
        cases spec with
        | priced => rfl
  rw [← represents.gas] at calculated
  have quoted : f.step (.quotes i nowMs) =
      (f.system.step (.task i nowMs (.fee (.ok ⟨initialBaseFee, priorityFee⟩)))).map
        fun system => { f with system } := by
    simp only [FeeSystem.step, running, represents.read, known, calculated]
  rw [taken, Option.map_some] at quoted
  have after := fun mined confirmed =>
    represents_advanced represents found id next nonces mined confirmed
  simp only [quiet, List.append_nil] at after
  exact ⟨_, quoted, after _ _⟩

theorem running_settle {runLoop : RunLoop EthFeeParams ℕ TxHash} {i j id id' : ℕ} {exit : Exit}
    {phase : EthPhase}
    (found : (runLoop.settle i id exit).tasks[j]? = some ⟨id', .running phase⟩) :
    i ≠ j ∧ runLoop.tasks[j]? = some ⟨id', .running phase⟩ := by
  obtain ⟨after, ended, same⟩ := tasks_settle runLoop i id exit
  rw [same, List.getElem?_set] at found
  split at found
  · split at found
    · cases found
      exact absurd rfl (ended phase)
    · cases found
  · rename_i other
    exact ⟨other, found⟩

theorem represents_quotePanic {i id : ℕ} {msg : Message} {nonce priority base : ℕ}
    (represents : Represents s f)
    (found : s.runLoop.tasks[i]? = some ⟨id, .running (.feeParams msg nonce priority)⟩)
    (known : s.basePriorityFee i = some base)
    (overflow : s.gas.calculatePriorityFee base priority = none) :
    ∃ f', f.step (.quotes i 0) = some f' ∧ Represents
      { s with runLoop := s.runLoop.settle i id .panicked, panics := s.panics + 1 } f' := by
  obtain ⟨call, there⟩ := represents.exists_call found
  have running := represents.running found there
  rw [← represents.gas] at overflow
  refine ⟨{ f with system.tasks := f.system.tasks.set i .panicked }, ?_, ?_⟩
  · simp only [FeeSystem.step, running, represents.read, known, overflow]
  · have length : (s.runLoop.settle i id .panicked).tasks.length = s.runLoop.tasks.length :=
      List.length_set
    refine { represents with calls := ?_, slots := ?_, running := fun found there => ?_ }
    · exact represents.calls.trans length.symm
    · exact List.length_set.trans (represents.slots.trans length.symm)
    · obtain ⟨other, before⟩ := running_settle found
      exact (List.getElem?_set_ne other).trans (represents.running before there)

/-- Every step of the sender is a step of the tasks under one fee manager, or none. -/
theorem represents_step (represents : Represents s f) (stepped : Stepped s s') :
    ∃ f', (f' = f ∨ ∃ event, f.step event = some f') ∧ Represents s' f' := by
  cases stepped with
  | loop moved retires =>
      exact ⟨f, .inl rfl, represents_loop represents retires.length retires.running⟩
  | @pops runLoop id msg moved spawned =>
      exact ⟨_, .inr ⟨.system (.spawn msg), rfl⟩, represents_pops represents spawned⟩
  | @synced runLoop fetched moved same =>
      have kept : Represents { s with runLoop } f :=
        represents_loop represents (congrArg List.length same) fun found => same ▸ found
      cases fetched with
      | ok onChainNonce =>
          refine ⟨_, .inr ⟨.system (.sync onChainNonce), rfl⟩, ?_⟩
          exact { kept with nonces := congrArg (·.updateCurrentNonce onChainNonce) kept.nonces }
      | error => exact ⟨f, .inl rfl, kept⟩
  | task priced found there moved =>
      obtain ⟨f', taken, after⟩ := represents_task represents priced found there moved
      exact ⟨f', .inr ⟨_, taken⟩, after⟩
  | quoted found there known calculated moved =>
      obtain ⟨f', taken, after⟩ := represents_quoted represents found there known calculated moved
      exact ⟨f', .inr ⟨_, taken⟩, after⟩
  | quotePanic found known overflow =>
      obtain ⟨f', taken, after⟩ := represents_quotePanic represents found known overflow
      exact ⟨f', .inr ⟨_, taken⟩, after⟩
  | @readsEstimate i id msg nonce priority found =>
      obtain ⟨call, there⟩ := represents.exists_call found
      have running := represents.running found there
      let read := Function.update f.basePriorityFee i (some f.gas.priorityFee)
      refine ⟨{ f with basePriorityFee := read }, .inr ⟨.readsEstimate i, ?_⟩,
        { represents with read := ?_ }⟩
      · simp only [FeeSystem.step, running, read]
      · simp only [read, represents.read, represents.gas]
  | @records j used confirmationTime found =>
      refine ⟨{ f with
        gas := f.gas.recordConfirmationTime confirmationTime
        updates := f.updates.set j (.blending used) },
        .inr ⟨.records j confirmationTime, ?_⟩, { represents with gas := ?_, updates := ?_ }⟩
      · simp only [FeeSystem.step, represents.updates, found]
      · simp only [represents.gas]
      · simp only [represents.updates]
  | @blends j used gas found blended =>
      refine ⟨{ f with gas, updates := f.updates.set j .done }, .inr ⟨.blends j, ?_⟩,
        { represents with gas := rfl, updates := ?_ }⟩
      · simp only [FeeSystem.step, represents.updates, found, represents.gas, blended,
          Option.map_some]
      · simp only [represents.updates]

theorem Reachable.represented (reached : Reachable s) :
    ∃ f : FeeSystem, f.Reachable ∧ Represents s f := by
  obtain ⟨chainId, currentNonce, events, ran⟩ := reached
  obtain ⟨matched, f, arrived, represents⟩ := runs_simulation
    (fun _ _ _ _ represents stepped => represents_step represents (step_spec stepped))
    (represents_new chainId currentNonce) ran
  exact ⟨f, ⟨chainId, currentNonce, matched, arrived⟩, represents⟩

end EthSender

/-! ## What the nonce manager sees -/

namespace FeeSystem

variable {f f' : FeeSystem} {g : System} {event : FeeEvent} {i nowMs : ℕ} {answer : EthAnswer}

theorem advance_panicked (chainId : ℕ) (nonces : NonceState) :
    EthTask.panicked.advance chainId nowMs nonces answer = none := by
  cases answer with
  | ready | fee | sent | registered | watched | receipt => rfl

/-- The tasks with a fee manager are tasks whose fees are given from outside; one that
    panics over its quote is one that is never answered. -/
structure Underlain (f : FeeSystem) (g : System) : Prop where
  chainId : g.chainId = f.system.chainId
  nonces : g.nonces = f.system.nonces
  slots : g.tasks.length = f.system.tasks.length
  tasks : ∀ {i : ℕ} {task}, f.system.tasks[i]? = some task → task ≠ .panicked →
    g.tasks[i]? = some task

theorem underlain_system {system : System} {event : SystemEvent} (underlain : Underlain f g)
    (stepped : f.system.step event = some system) :
    ∃ g', g.step event = some g' ∧ ∀ updates, Underlain { f with system, updates } g' := by
  cases event with
  | spawn msg =>
      cases stepped
      refine ⟨_, rfl, fun _ => ⟨underlain.chainId, underlain.nonces, ?_, ?_⟩⟩
      · simp [underlain.slots]
      · intro i task found running
        rcases Nat.lt_or_ge i f.system.tasks.length with inside | outside
        · rw [List.getElem?_append_left inside] at found
          rw [List.getElem?_append_left (underlain.slots.symm ▸ inside)]
          exact underlain.tasks found running
        · rw [List.getElem?_append_right outside] at found
          rwa [List.getElem?_append_right (underlain.slots.symm ▸ outside), underlain.slots]
  | sync onChainNonce =>
      cases stepped
      refine ⟨_, rfl, fun _ => { underlain with nonces := ?_ }⟩
      exact congrArg (·.updateCurrentNonce onChainNonce) underlain.nonces
  | task i nowMs answer =>
      obtain ⟨task, next, nonces, found, advanced, rfl⟩ := System.task_step_spec stepped
      have running : task ≠ .panicked := by
        rintro rfl
        rw [advance_panicked] at advanced
        cases advanced
      have there := underlain.tasks found running
      rw [← underlain.chainId, ← underlain.nonces] at advanced
      refine ⟨⟨g.chainId, nonces, g.tasks.set i next, task.minedBy answer ∪ g.mined,
        task.confirmedBy answer ∪ g.confirmed⟩, ?_, fun _ => ?_⟩
      · simp only [System.step, there, advanced, Option.bind_eq_bind, Option.bind_some,
          Option.pure_def]
      · refine ⟨underlain.chainId, rfl, by simp [underlain.slots], fun {j other} at_ alive => ?_⟩
        by_cases here : i = j
        · subst here
          rw [getElem?_set_of_found next found] at at_
          rw [getElem?_set_of_found next there]
          exact at_
        · rw [List.getElem?_set_ne here] at at_ ⊢
          exact underlain.tasks at_ alive

theorem underlain_step (underlain : Underlain f g) (stepped : f.step event = some f') :
    ∃ g', (g' = g ∨ ∃ event, g.step event = some g') ∧ Underlain f' g' := by
  cases event with
  | system event =>
      cases event with
      | spawn msg =>
          have moved : f.system.step (.spawn msg) = some _ := rfl
          cases stepped
          obtain ⟨g', taken, after⟩ := underlain_system underlain moved
          exact ⟨g', .inr ⟨_, taken⟩, after f.updates⟩
      | sync onChainNonce =>
          have moved : f.system.step (.sync onChainNonce) = some _ := rfl
          cases stepped
          obtain ⟨g', taken, after⟩ := underlain_system underlain moved
          exact ⟨g', .inr ⟨_, taken⟩, after f.updates⟩
      | task i nowMs answer =>
          cases answer with
          | fee => cases stepped
          | ready | sent | registered | watched | receipt =>
              obtain ⟨system, moved, rest⟩ := Option.bind_eq_some_iff.mp stepped
              obtain ⟨task, -, result⟩ := Option.bind_eq_some_iff.mp rest
              cases result
              obtain ⟨g', taken, after⟩ := underlain_system underlain moved
              exact ⟨g', .inr ⟨_, taken⟩, after _⟩
  | readsEstimate i =>
      simp only [step] at stepped
      split at stepped
      · cases stepped
        exact ⟨g, .inl rfl, { underlain with }⟩
      · cases stepped
  | quotes i nowMs =>
      simp only [step] at stepped
      split at stepped
      · split at stepped
        · cases stepped
          refine ⟨g, .inl rfl, ⟨underlain.chainId, underlain.nonces, ?_, ?_⟩⟩
          · exact underlain.slots.trans List.length_set.symm
          · intro j task found running
            rw [List.getElem?_set] at found
            split at found
            · split at found
              · cases found
                exact absurd rfl running
              · cases found
            · exact underlain.tasks found running
        · obtain ⟨system, moved, rfl⟩ := Option.map_eq_some_iff.mp stepped
          obtain ⟨g', taken, after⟩ := underlain_system underlain moved
          exact ⟨g', .inr ⟨_, taken⟩, after f.updates⟩
      · cases stepped
  | records j confirmationTime =>
      simp only [step] at stepped
      split at stepped
      · cases stepped
        exact ⟨g, .inl rfl, { underlain with }⟩
      · cases stepped
  | blends j =>
      simp only [step] at stepped
      split at stepped
      · obtain ⟨gas, -, rfl⟩ := Option.map_eq_some_iff.mp stepped
        exact ⟨g, .inl rfl, { underlain with }⟩
      · cases stepped

theorem underlain_new (chainId currentNonce : ℕ) :
    Underlain (new chainId currentNonce) (.new chainId currentNonce) where
  chainId := rfl
  nonces := rfl
  slots := rfl
  tasks found := by cases found

theorem Reachable.underlain (reached : Reachable f) :
    ∃ g : System, g.Reachable ∧ Underlain f g := by
  obtain ⟨chainId, currentNonce, events, ran⟩ := reached
  obtain ⟨matched, g, arrived, underlain⟩ := runs_simulation
    (fun _ _ _ _ underlain stepped => underlain_step underlain stepped)
    (underlain_new chainId currentNonce) ran
  exact ⟨g, ⟨chainId, currentNonce, matched, arrived⟩, underlain⟩

end FeeSystem

namespace EthSender

variable {s : EthSender}

/-- The nonce a running task holds is held by that task in a system of tasks and a nonce
    manager alone, in a state that system can reach. -/
theorem Reachable.held (reached : Reachable s) :
    ∃ g : System, g.Reachable ∧ g.nonces = s.nonces ∧
      ∀ {i id n : ℕ} {phase}, s.runLoop.tasks[i]? = some ⟨id, .running phase⟩ →
        phase.heldToken = some n → heldAt g.tasks i = some n := by
  obtain ⟨f, arrived, represents⟩ := reached.represented
  obtain ⟨g, there, underlain⟩ := arrived.underlain
  refine ⟨g, there, underlain.nonces.trans represents.nonces, ?_⟩
  intro i id n phase found holds
  obtain ⟨call, at_⟩ := represents.exists_call found
  have alive : (⟨phase, call⟩ : EthTask) ≠ .panicked := by
    intro same
    obtain rfl : phase = .finished .panicked := congrArg EthTask.phase same
    cases holds
  have below := underlain.tasks (represents.running found at_) alive
  rw [heldAt_eq below]
  exact holds

/-- The tasks at work are for different messages, hold different nonces, and hold none that
    the nonce manager would hand out next. -/
theorem tasks_kept_apart (reached : Reachable s) :
    (∀ (i j id id' : ℕ) phase phase', s.runLoop.tasks[i]? = some ⟨id, .running phase⟩ →
      s.runLoop.tasks[j]? = some ⟨id', .running phase'⟩ → i ≠ j →
      id ≠ id' ∧ ∀ n, phase.heldToken = some n → phase'.heldToken ≠ some n) ∧
    ∀ (i id n m : ℕ) phase nonces, s.runLoop.tasks[i]? = some ⟨id, .running phase⟩ →
      phase.heldToken = some n → s.nonces.getNextAvailableNonce = some (m, nonces) → m ≠ n := by
  obtain ⟨g, there, same, held⟩ := reached.held
  have valid := there.sound.valid
  constructor
  · intro i j id id' phase phase' found found' differ
    refine ⟨fun equal => ?_, fun n holds holds' => ?_⟩
    · subst equal
      exact differ (reached.custody.running_unique found found')
    · exact differ (valid.exclusive (held found holds) (held found' holds'))
  · intro i id n m phase nonces found holds drawn equal
    rw [← same] at drawn
    have taken := valid.held (held found holds)
    exact (NonceState.getNextAvailableNonce_spec drawn).1 (equal ▸ taken)

/-- A caller's message becomes the task `k`, which draws its nonce. -/
def sends (k : ℕ) : List EthSenderEvent :=
  [.loop (.addMessage sampleMessage 0), .loop (.lockGranted (.caller k)), .loop (.callPushes k),
    .loop (.callNotifies k), .loop .permitGranted, .loop .permitPolled,
    .loop (.lockGranted .loop), .loop (.pops 0), .task k 0 .ready, .task k 0 .ready]

/-- Two messages are sent and a block comes in between. -/
theorem tasks_kept_apart_of_two :
    let events := sends 0 ++ [.loop .block, .synced (.ok 4)] ++ sends 1
    ∃ s, runs step (new 1 3) events = some s ∧
      s.runLoop.tasks.map (fun task => (task.id, task.stage)) =
        [(0, .running (.feeParams sampleMessage 3 0)),
          (1, .running (.feeParams sampleMessage 4 0))] ∧
      (∀ (i j id id' : ℕ) phase phase', s.runLoop.tasks[i]? = some ⟨id, .running phase⟩ →
        s.runLoop.tasks[j]? = some ⟨id', .running phase'⟩ → i ≠ j →
        id ≠ id' ∧ ∀ n, phase.heldToken = some n → phase'.heldToken ≠ some n) ∧
      ∀ (i id n m : ℕ) phase nonces, s.runLoop.tasks[i]? = some ⟨id, .running phase⟩ →
        phase.heldToken = some n → s.nonces.getNextAvailableNonce = some (m, nonces) → m ≠ n := by
  intro events
  have shown : (runs step (new 1 3) events).map
      (fun s => s.runLoop.tasks.map fun task => (task.id, task.stage)) =
      some [(0, .running (.feeParams sampleMessage 3 0)),
        (1, .running (.feeParams sampleMessage 4 0))] := by decide +kernel
  obtain ⟨s, ran, working⟩ := Option.map_eq_some_iff.mp shown
  exact ⟨s, ran, working, tasks_kept_apart ⟨1, 3, events, ran⟩⟩

end EthSender

end Bulkmail.Ethereum
