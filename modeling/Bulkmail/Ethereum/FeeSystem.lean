import Bulkmail.Ethereum.Exclusivity
import Bulkmail.Ethereum.GasPrice

/-! # Tasks over one gas price manager

The tasks of a `Sender<Eth>` with the fee manager they share.  `calculate_priority_fee`
reads the estimate under one lock and the confirmation times under another, and
`update_on_confirmation` writes them under the same two locks in the other order, so
these calls are two steps each and interleave with those of other tasks.  A reported
confirmation updates the estimate beside the nonce manager, in any order with it.
-/

namespace Bulkmail.Ethereum

open Library Sender

/-- A call of `update_on_confirmation`. -/
inductive FeeUpdate where
  | recording (usedPriorityFee : ℕ)
  | blending (usedPriorityFee : ℕ)
  | done
  deriving DecidableEq, Repr

structure FeeSystem where
  system : System
  gas : GasPriceManager
  /-- The estimate each task has read in its `calculate_priority_fee`. -/
  basePriorityFee : ℕ → Option ℕ
  updates : List FeeUpdate

inductive FeeEvent where
  /-- Whatever the fee manager takes no part in. -/
  | system (event : SystemEvent)
  | readsEstimate (i : ℕ)
  | quotes (i nowMs : ℕ)
  | records (j confirmationTime : ℕ)
  | blends (j : ℕ)

/-- A task that has come to `handle_confirmed` calls `update_on_confirmation`. -/
def EthTask.opensUpdate (task : EthTask) : List FeeUpdate :=
  match task.phase with
  | .confirming pending => [.recording pending.fee.priorityFee]
  | _ => []

namespace FeeSystem

def new (chainId currentNonce : ℕ) : FeeSystem :=
  ⟨.new chainId currentNonce, .new, fun _ => none, []⟩

def step (s : FeeSystem) : FeeEvent → Option FeeSystem
  | .system (.task _ _ (.fee _)) => none
  | .system (.task i nowMs answer) => do
      let system ← s.system.step (.task i nowMs answer)
      let task ← system.tasks[i]?
      return { s with system, updates := s.updates ++ task.opensUpdate }
  | .system event => (s.system.step event).map fun system => { s with system }
  | .readsEstimate i =>
      match s.system.tasks[i]? with
      | some ⟨.feeParams _ _ _, _⟩ =>
          some { s with
            basePriorityFee := Function.update s.basePriorityFee i (some s.gas.priorityFee) }
      | _ => none
  | .quotes i nowMs =>
      match s.system.tasks[i]?, s.basePriorityFee i with
      | some ⟨.feeParams _ _ priority, _⟩, some basePriorityFee =>
          match s.gas.calculatePriorityFee basePriorityFee priority with
          | none => some { s with system.tasks := s.system.tasks.set i .panicked }
          | some priorityFee =>
              (s.system.step (.task i nowMs (.fee (.ok ⟨initialBaseFee, priorityFee⟩)))).map
                fun system => { s with system }
      | _, _ => none
  | .records j confirmationTime =>
      match s.updates[j]? with
      | some (.recording used) =>
          some { s with
            gas := s.gas.recordConfirmationTime confirmationTime
            updates := s.updates.set j (.blending used) }
      | _ => none
  | .blends j =>
      match s.updates[j]? with
      | some (.blending used) =>
          (s.gas.blendPriorityFee used).map fun gas =>
            { s with gas, updates := s.updates.set j .done }
      | _ => none

def Reachable (s : FeeSystem) : Prop :=
  ∃ chainId currentNonce events, runs step (new chainId currentNonce) events = some s

/-- Everything a step can do to the tasks and to the fee manager. -/
inductive Stepped (s : FeeSystem) : FeeEvent → FeeSystem → Prop where
  | spawn {msg system} : system.tasks = s.system.tasks ++ [.start msg] →
      Stepped s (.system (.spawn msg)) { s with system }
  | sync {onChainNonce system} : system.tasks = s.system.tasks →
      Stepped s (.system (.sync onChainNonce)) { s with system }
  | task {i nowMs answer task next nonces system} : (∀ result, answer ≠ .fee result) →
      s.system.tasks[i]? = some task →
      task.Advanced s.system.chainId nowMs s.system.nonces answer next nonces →
      system.tasks = s.system.tasks.set i next →
      Stepped s (.system (.task i nowMs answer))
        { s with system, updates := s.updates ++ next.opensUpdate }
  | readsEstimate {i} :
      Stepped s (.readsEstimate i)
        { s with basePriorityFee := Function.update s.basePriorityFee i (some s.gas.priorityFee) }
  | quotePanic {i nowMs system} : system.tasks = s.system.tasks.set i .panicked →
      Stepped s (.quotes i nowMs) { s with system }
  | quoted {i nowMs msg nonce priority call base congestion priorityFee system} :
      s.system.tasks[i]? = some ⟨.feeParams msg nonce priority, call⟩ →
      s.basePriorityFee i = some base →
      GasPriceManager.scalePriorityFee base congestion priority = some priorityFee →
      system.tasks =
        s.system.tasks.set i ⟨.iterating msg ⟨initialBaseFee, priorityFee⟩ nonce 0, .entry⟩ →
      Stepped s (.quotes i nowMs) { s with system }
  | records {j used confirmationTime} : s.updates[j]? = some (.recording used) →
      Stepped s (.records j confirmationTime)
        { s with
          gas := s.gas.recordConfirmationTime confirmationTime
          updates := s.updates.set j (.blending used) }
  | blends {j used} : s.updates[j]? = some (.blending used) →
      Stepped s (.blends j)
        { s with
          gas := { s.gas with priorityFee := (s.gas.priorityFee + used) / 2 }
          updates := s.updates.set j .done }

variable {s s' : FeeSystem} {event : FeeEvent} {i nowMs : ℕ}

theorem task_spec {answer : EthAnswer} (priced : ∀ result, answer ≠ .fee result)
    (stepped : s.step (.system (.task i nowMs answer)) = some s') :
    Stepped s (.system (.task i nowMs answer)) s' := by
  have opened : ((s.system.step (.task i nowMs answer)).bind fun system =>
      system.tasks[i]?.bind fun task =>
        some { s with system, updates := s.updates ++ task.opensUpdate }) = some s' := by
    cases answer with
    | fee result => exact absurd rfl (priced result)
    | ready | sent | registered | watched | receipt => exact stepped
  obtain ⟨system, moved, rest⟩ := Option.bind_eq_some_iff.mp opened
  obtain ⟨task, next, nonces, found, advanced, rfl⟩ := System.task_step_spec moved
  obtain ⟨after, there, result⟩ := Option.bind_eq_some_iff.mp rest
  obtain rfl : next = after := Option.some.inj ((getElem?_set_of_found next found).symm.trans there)
  cases result
  exact .task priced found (EthTask.advance_spec advanced) rfl

theorem quotes_spec (stepped : s.step (.quotes i nowMs) = some s') :
    Stepped s (.quotes i nowMs) s' := by
  simp only [step] at stepped
  split at stepped
  · rename_i msg nonce priority call base found known
    split at stepped
    · cases stepped
      exact .quotePanic rfl
    · rename_i priorityFee calculated
      obtain ⟨congestion, -, scaled⟩ := Option.bind_eq_some_iff.mp calculated
      obtain ⟨system, moved, rfl⟩ := Option.map_eq_some_iff.mp stepped
      obtain ⟨task, next, nonces, same, advanced, rfl⟩ := System.task_step_spec moved
      obtain rfl := Option.some.inj (found.symm.trans same)
      cases EthTask.advance_spec advanced with
      | price spec =>
          cases spec with
          | priced => exact .quoted found known scaled rfl
  · cases stepped

theorem step_spec (stepped : s.step event = some s') : Stepped s event s' := by
  cases event with
  | system event =>
      cases event with
      | spawn msg =>
          cases stepped
          exact .spawn rfl
      | sync onChainNonce =>
          cases stepped
          exact .sync rfl
      | task i nowMs answer =>
          refine task_spec (fun result same => ?_) stepped
          subst same
          cases stepped
  | readsEstimate i =>
      simp only [step] at stepped
      split at stepped
      · cases stepped
        exact .readsEstimate
      · cases stepped
  | quotes i nowMs => exact quotes_spec stepped
  | records j confirmationTime =>
      simp only [step] at stepped
      split at stepped
      · rename_i used found
        cases stepped
        exact .records found
      · cases stepped
  | blends j =>
      simp only [step] at stepped
      split at stepped
      · rename_i used found
        obtain ⟨gas, blended, rfl⟩ := Option.map_eq_some_iff.mp stepped
        obtain ⟨total, added, rfl⟩ := Option.map_eq_some_iff.mp blended
        obtain ⟨-, rfl⟩ := checkedAdd_eq_some_iff.mp added
        exact .blends found
      · cases stepped

/-- What holds of the tasks after a step, from what the tasks that move do. -/
theorem tasks_step {good : EthTask → Prop} (stepped : Stepped s event s')
    (held : ∀ task ∈ s.system.tasks, good task) (started : ∀ msg, good (.start msg))
    (panicked : good .panicked)
    (moves : ∀ {i nowMs answer task next nonces}, event = .system (.task i nowMs answer) →
      s.system.tasks[i]? = some task → (∀ result, answer ≠ .fee result) →
      task.Advanced s.system.chainId nowMs s.system.nonces answer next nonces → good next)
    (quoted : ∀ {i base congestion priority priorityFee}, s.basePriorityFee i = some base →
      GasPriceManager.scalePriorityFee base congestion priority = some priorityFee →
      ∀ msg nonce, good ⟨.iterating msg ⟨initialBaseFee, priorityFee⟩ nonce 0, .entry⟩) :
    ∀ task ∈ s'.system.tasks, good task := by
  have replaced : ∀ {system : System} {i next}, system.tasks = s.system.tasks.set i next →
      good next → ∀ task ∈ system.tasks, good task := by
    intro system i next same fresh task member
    rw [same] at member
    cases List.mem_or_eq_of_mem_set member with
    | inl before => exact held task before
    | inr here => exact here ▸ fresh
  cases stepped with
  | @spawn msg system same =>
      intro task member
      rw [same] at member
      cases List.mem_append.mp member with
      | inl before => exact held task before
      | inr fresh => exact List.mem_singleton.mp fresh ▸ started msg
  | sync same =>
      intro task member
      exact held task (same ▸ member)
  | task unpriced found advanced same => exact replaced same (moves rfl found unpriced advanced)
  | quotePanic same => exact replaced same panicked
  | quoted found known scaled same => exact replaced same (quoted known scaled _ _)
  | readsEstimate | records | blends => exact held

/-! ## Sample runs -/

/-- A new task `i` draws its nonce, is quoted a fee and sends. -/
def sends (i : ℕ) (msg : Message) : List FeeEvent :=
  [.system (.spawn msg), .system (.task i 0 .ready), .system (.task i 0 .ready), .readsEstimate i,
    .quotes i 0, .system (.task i 0 .ready), .system (.task i 0 (.sent (.ok 5))),
    .system (.task i 0 (.registered (.ok ())))]

/-- The transaction of task `i` succeeds, and the confirmation is update `j`. -/
def confirms (i j confirmationTime : ℕ) : List FeeEvent :=
  [.system (.task i 0 (.watched true)), .system (.task i 0 (.receipt (.ok (some true)))),
    .records j confirmationTime, .blends j, .system (.task i 0 .ready)]

/-- The transaction of task `i` is dropped, and a replacement is sent. -/
def replaces (i : ℕ) : List FeeEvent :=
  [.system (.task i 0 (.watched false)), .system (.task i 0 .ready), .system (.task i 0 .ready),
    .system (.task i 0 (.sent (.ok 6))), .system (.task i 0 (.registered (.ok ())))]

end FeeSystem

end Bulkmail.Ethereum
