import Bulkmail.Ethereum.NonceManager
import Bulkmail.Sender.Task

/-! # The Ethereum adapter

`EthClient`, `EthFeeManager` and `EthRetryStrategy` of `bulkmail/src/adapter/ethereum.rs`
as they run inside a message task.  Their calls have await points of their own, so a
task is the sender's phase together with a position inside the awaited call.  What the
RPC endpoint and the fee estimate answer is given from outside.
-/

namespace Bulkmail.Ethereum

open Library Sender

abbrev TxHash := Fin (2 ^ 256)

structure EthFeeParams where
  baseFee : ℕ
  priorityFee : ℕ
  deriving DecidableEq, Repr

inductive TxKind where
  | create
  | call (address : Address)
  deriving DecidableEq, Repr

structure TxEip1559 where
  chainId : ℕ
  to_ : TxKind
  value : Fin (2 ^ 256)
  input : List UInt8
  nonce : ℕ
  gasLimit : ℕ
  maxFeePerGas : ℕ
  maxPriorityFeePerGas : ℕ
  deriving DecidableEq, Repr

def maxReplacements : ℕ := 3

def gasPriceIncreasePercent : ℕ := 20

def bumpByPercent (n percent : ℕ) : Option ℕ := do
  let scaled ← checkedMul u128Size n percent
  checkedAdd u128Size n (scaled / 100)

def bumpFee (current : EthFeeParams) : Option EthFeeParams :=
  (bumpByPercent current.priorityFee gasPriceIncreasePercent).map fun priorityFee =>
    { current with priorityFee }

/-- The transaction `EthClient::send_transaction` hands to the chain. -/
def buildTransaction (chainId : ℕ) (msg : Message) (fee : EthFeeParams) (nonce : ℕ) :
    Option TxEip1559 :=
  (checkedAdd u128Size fee.baseFee fee.priorityFee).map fun maxFeePerGas =>
    { chainId
      to_ := msg.recipient.elim .create .call
      value := msg.value
      input := msg.data
      nonce
      gasLimit := msg.gas
      maxFeePerGas
      maxPriorityFeePerGas := fee.priorityFee }

/-! ## Tasks -/

abbrev EthPhase := Phase EthFeeParams ℕ TxHash

/-- Where the task stands inside the call its phase awaits. -/
inductive EthCall where
  | entry
  | registering (hash : TxHash)
  | watching (hash : TxHash)
  | fetchingReceipt (hash : TxHash)
  /-- The strategy has released the nonce and is about to return. -/
  | returning (decision : RetryDecision EthFeeParams ℕ)
  deriving DecidableEq, Repr

structure EthTask where
  phase : EthPhase
  call : EthCall
  deriving DecidableEq, Repr

inductive EthAnswer where
  | ready
  | fee (result : Except Error EthFeeParams)
  | sent (result : Except ChainError TxHash)
  | registered (result : Except String Unit)
  /-- Whether the confirmation watcher resolved before its timeout. -/
  | watched (ok : Bool)
  /-- The receipt's status, if there is a receipt. -/
  | receipt (result : Except ChainError (Option Bool))

/-- The last part of `EthClient::send_transaction`. -/
def receiptOutcome (hash : TxHash) : Except ChainError (Option Bool) → SendOutcome TxHash
  | .ok (some true) => .confirmed hash
  | .ok (some false) => .reverted hash
  | .ok none | .error _ => .dropped hash

namespace EthTask

def start (msg : Message) : EthTask := ⟨.starting msg, .entry⟩

/-- Go on in the sender's code, up to the next await point. -/
def proceed (nowMs : ℕ) (phase : EthPhase) (answer : Answer EthFeeParams ℕ TxHash) :
    Option EthTask :=
  (phase.resume nowMs answer).map (⟨·, .entry⟩)

def panicked : EthTask := ⟨.finished .panicked, .entry⟩

/-- Building the transaction comes before the first await of `send_transaction`. -/
def enterSend (chainId : ℕ) (task : EthTask) : EthTask :=
  match task.phase with
  | .sending msg fee nonce _ =>
      if (buildTransaction chainId msg fee nonce).isSome then task else panicked
  | _ => task

theorem enterSend_eq (chainId : ℕ) (task : EthTask) :
    task.enterSend chainId = task ∨ task.enterSend chainId = panicked := by
  unfold enterSend
  split
  · split
    · exact .inl rfl
    · exact .inr rfl
  · exact .inl rfl

/-- `EthRetryStrategy::handle_dropped` up to its first await point. -/
def handleDropped (nowMs : ℕ) (nonces : NonceState) (msg : Message)
    (pending : PendingTransaction EthFeeParams ℕ TxHash) : Option (EthTask × NonceState) :=
  if !pending.msg.canRetry then
    some (⟨.retrying msg pending, .returning .abandon⟩,
      nonces.markNonceAvailable pending.replayToken)
  else if maxReplacements ≤ pending.replacementCount then
    some (⟨.retrying msg pending, .returning .requeue⟩,
      nonces.markNonceAvailable pending.replayToken)
  else
    match bumpFee pending.fee with
    | none => some (panicked, nonces)
    | some newFee =>
        (proceed nowMs (.retrying msg pending)
          (.decision (.resubmit newFee pending.replayToken))).map (·, nonces)

/-- One step of a task: its own code and at most one operation of the nonce manager. -/
def advance (chainId nowMs : ℕ) (nonces : NonceState) (task : EthTask) :
    EthAnswer → Option (EthTask × NonceState)
  | .ready =>
      match task.phase, task.call with
      | .starting msg, _ => (proceed nowMs (.starting msg) .ready).map (·, nonces)
      | .nextToken msg startMs, _ =>
          match nonces.getNextAvailableNonce with
          | none => some (panicked, nonces)
          | some (nonce, assigned) =>
              (proceed nowMs (.nextToken msg startMs) (.token nonce)).map (·, assigned)
      | .iterating msg fee nonce replacementCount, _ =>
          (proceed nowMs (.iterating msg fee nonce replacementCount) .ready).map fun task =>
            (task.enterSend chainId, nonces)
      | .confirming pending, _ =>
          (proceed nowMs (.confirming pending) .ready).map
            (·, nonces.updateCurrentNonce pending.replayToken)
      | .retrying msg pending, .returning decision =>
          (proceed nowMs (.retrying msg pending) (.decision decision)).map (·, nonces)
      | .retrying msg pending, _ => handleDropped nowMs nonces msg pending
      | .releasing nonce after, _ =>
          (proceed nowMs (.releasing nonce after) .ready).map (·, nonces.markNonceAvailable nonce)
      | .adding msg, _ => (proceed nowMs (.adding msg) .ready).map (·, nonces)
      | _, _ => none
  | .fee result => (proceed nowMs task.phase (.fee result)).map (·, nonces)
  | .sent result =>
      match task.phase, task.call with
      | .sending _ _ _ _, .entry =>
          match result with
          | .ok hash => some (⟨task.phase, .registering hash⟩, nonces)
          | .error error =>
              (proceed nowMs task.phase (.outcome (.error (.chainError error)))).map (·, nonces)
      | _, _ => none
  | .registered result =>
      match task.phase, task.call with
      | .sending _ _ _ _, .registering hash =>
          match result with
          | .ok _ => some (⟨task.phase, .watching hash⟩, nonces)
          | .error error =>
              (proceed nowMs task.phase (.outcome (.error (.pendingTransaction error)))).map
                (·, nonces)
      | _, _ => none
  | .watched ok =>
      match task.phase, task.call with
      | .sending _ _ _ _, .watching hash =>
          if ok then some (⟨task.phase, .fetchingReceipt hash⟩, nonces)
          else (proceed nowMs task.phase (.outcome (.ok (.dropped hash)))).map (·, nonces)
      | _, _ => none
  | .receipt result =>
      match task.phase, task.call with
      | .sending _ _ _ _, .fetchingReceipt hash =>
          (proceed nowMs task.phase (.outcome (.ok (receiptOutcome hash result)))).map (·, nonces)
      | _, _ => none

/-- Everything a step of a task can do, with the sender's part left as a resumption. -/
inductive Advanced (chainId nowMs : ℕ) (nonces : NonceState) :
    EthTask → EthAnswer → EthTask → NonceState → Prop where
  | start {msg call next} : Phase.Resumed nowMs (.starting msg) .ready next →
      Advanced chainId nowMs nonces ⟨.starting msg, call⟩ .ready ⟨next, .entry⟩ nonces
  | drawPanic {msg startMs call} : nonces.getNextAvailableNonce = none →
      Advanced chainId nowMs nonces ⟨.nextToken msg startMs, call⟩ .ready panicked nonces
  | draw {msg startMs call next nonce assigned} :
      nonces.getNextAvailableNonce = some (nonce, assigned) →
      Phase.Resumed nowMs (.nextToken msg startMs) (.token nonce) next →
      Advanced chainId nowMs nonces ⟨.nextToken msg startMs, call⟩ .ready ⟨next, .entry⟩ assigned
  | iterate {msg fee nonce count call next} :
      Phase.Resumed nowMs (.iterating msg fee nonce count) .ready next →
      Advanced chainId nowMs nonces ⟨.iterating msg fee nonce count, call⟩ .ready
        (enterSend chainId ⟨next, .entry⟩) nonces
  | confirm {pending call} :
      Advanced chainId nowMs nonces ⟨.confirming pending, call⟩ .ready
        ⟨.finished .confirmed, .entry⟩ (nonces.updateCurrentNonce pending.replayToken)
  | strategyReturns {msg pending decision next} :
      Phase.Resumed nowMs (.retrying msg pending) (.decision decision) next →
      Advanced chainId nowMs nonces ⟨.retrying msg pending, .returning decision⟩ .ready
        ⟨next, .entry⟩ nonces
  | strategyReleases {msg pending call decision} :
      pending.msg.canRetry = false ∨ maxReplacements ≤ pending.replacementCount →
      Advanced chainId nowMs nonces ⟨.retrying msg pending, call⟩ .ready
        ⟨.retrying msg pending, .returning decision⟩
        (nonces.markNonceAvailable pending.replayToken)
  | bumpPanic {msg pending call} : bumpFee pending.fee = none →
      Advanced chainId nowMs nonces ⟨.retrying msg pending, call⟩ .ready panicked nonces
  | resubmit {msg pending call fee} : bumpFee pending.fee = some fee →
      Advanced chainId nowMs nonces ⟨.retrying msg pending, call⟩ .ready
        ⟨.iterating msg fee pending.replayToken (pending.replacementCount + 1), .entry⟩ nonces
  | release {nonce after call next} : Phase.Resumed nowMs (.releasing nonce after) .ready next →
      Advanced chainId nowMs nonces ⟨.releasing nonce after, call⟩ .ready ⟨next, .entry⟩
        (nonces.markNonceAvailable nonce)
  | add {msg call next} : Phase.Resumed nowMs (.adding msg) .ready next →
      Advanced chainId nowMs nonces ⟨.adding msg, call⟩ .ready ⟨next, .entry⟩ nonces
  | price {phase call result next} : Phase.Resumed nowMs phase (.fee result) next →
      Advanced chainId nowMs nonces ⟨phase, call⟩ (.fee result) ⟨next, .entry⟩ nonces
  | broadcast {msg fee nonce count hash} :
      Advanced chainId nowMs nonces ⟨.sending msg fee nonce count, .entry⟩ (.sent (.ok hash))
        ⟨.sending msg fee nonce count, .registering hash⟩ nonces
  | register {msg fee nonce count hash} :
      Advanced chainId nowMs nonces ⟨.sending msg fee nonce count, .registering hash⟩
        (.registered (.ok ())) ⟨.sending msg fee nonce count, .watching hash⟩ nonces
  | watch {msg fee nonce count hash} :
      Advanced chainId nowMs nonces ⟨.sending msg fee nonce count, .watching hash⟩ (.watched true)
        ⟨.sending msg fee nonce count, .fetchingReceipt hash⟩ nonces
  | sendError {msg fee nonce count error next} :
      Phase.Resumed nowMs (.sending msg fee nonce count) (.outcome (.error (.chainError error)))
        next →
      Advanced chainId nowMs nonces ⟨.sending msg fee nonce count, .entry⟩ (.sent (.error error))
        ⟨next, .entry⟩ nonces
  | registerError {msg fee nonce count hash error next} :
      Phase.Resumed nowMs (.sending msg fee nonce count)
        (.outcome (.error (.pendingTransaction error))) next →
      Advanced chainId nowMs nonces ⟨.sending msg fee nonce count, .registering hash⟩
        (.registered (.error error)) ⟨next, .entry⟩ nonces
  | timedOut {msg fee nonce count hash next} :
      Phase.Resumed nowMs (.sending msg fee nonce count) (.outcome (.ok (.dropped hash))) next →
      Advanced chainId nowMs nonces ⟨.sending msg fee nonce count, .watching hash⟩ (.watched false)
        ⟨next, .entry⟩ nonces
  | receiptCame {msg fee nonce count hash result next} :
      Phase.Resumed nowMs (.sending msg fee nonce count)
        (.outcome (.ok (receiptOutcome hash result))) next →
      Advanced chainId nowMs nonces ⟨.sending msg fee nonce count, .fetchingReceipt hash⟩
        (.receipt result) ⟨next, .entry⟩ nonces

variable {chainId nowMs : ℕ} {nonces nonces' : NonceState} {task next : EthTask}
variable {answer : EthAnswer} {phase : EthPhase} {given : Answer EthFeeParams ℕ TxHash}

theorem proceed_spec (proceeded : proceed nowMs phase given = some next) :
    ∃ resumed, Phase.Resumed nowMs phase given resumed ∧ next = ⟨resumed, .entry⟩ := by
  obtain ⟨resumed, result, rfl⟩ := Option.map_eq_some_iff.mp proceeded
  exact ⟨resumed, Phase.resume_spec result, rfl⟩

/-- The shape of almost every branch of `advance`. -/
theorem proceed_map_spec {operation : EthTask → EthTask × NonceState}
    (advanced : (proceed nowMs phase given).map operation = some (next, nonces')) :
    ∃ resumed, Phase.Resumed nowMs phase given resumed ∧
      operation ⟨resumed, .entry⟩ = (next, nonces') := by
  obtain ⟨proceeded, result, outcome⟩ := Option.map_eq_some_iff.mp advanced
  obtain ⟨resumed, spec, rfl⟩ := proceed_spec result
  exact ⟨resumed, spec, outcome⟩

theorem handleDropped_spec {msg : Message} {pending : PendingTransaction EthFeeParams ℕ TxHash}
    {call : EthCall} (handled : handleDropped nowMs nonces msg pending = some (next, nonces')) :
    Advanced chainId nowMs nonces ⟨.retrying msg pending, call⟩ .ready next nonces' := by
  unfold handleDropped at handled
  split at handled
  · rename_i spent
    cases handled
    exact .strategyReleases (.inl (by simpa using spent))
  · split at handled
    · rename_i many
      cases handled
      exact .strategyReleases (.inr many)
    · split at handled
      · rename_i overflow
        cases handled
        exact .bumpPanic overflow
      · rename_i fee bumped
        obtain ⟨resumed, spec, outcome⟩ := proceed_map_spec handled
        cases outcome
        cases spec
        exact .resubmit bumped

theorem advance_spec (advanced : task.advance chainId nowMs nonces answer = some (next, nonces')) :
    Advanced chainId nowMs nonces task answer next nonces' := by
  obtain ⟨phase, call⟩ := task
  cases answer with
  | ready =>
      simp only [advance] at advanced
      split at advanced
      · obtain ⟨resumed, spec, outcome⟩ := proceed_map_spec advanced
        cases outcome
        exact .start spec
      · split at advanced
        · rename_i overflow
          cases advanced
          exact .drawPanic overflow
        · rename_i nonce assigned drawn
          obtain ⟨resumed, spec, outcome⟩ := proceed_map_spec advanced
          cases outcome
          exact .draw drawn spec
      · obtain ⟨resumed, spec, outcome⟩ := proceed_map_spec advanced
        cases outcome
        exact .iterate spec
      · obtain ⟨resumed, spec, outcome⟩ := proceed_map_spec advanced
        cases outcome
        cases spec
        exact .confirm
      · obtain ⟨resumed, spec, outcome⟩ := proceed_map_spec advanced
        cases outcome
        exact .strategyReturns spec
      · exact handleDropped_spec advanced
      · obtain ⟨resumed, spec, outcome⟩ := proceed_map_spec advanced
        cases outcome
        exact .release spec
      · obtain ⟨resumed, spec, outcome⟩ := proceed_map_spec advanced
        cases outcome
        exact .add spec
      · cases advanced
  | fee result =>
      obtain ⟨resumed, spec, outcome⟩ := proceed_map_spec advanced
      cases outcome
      exact .price spec
  | sent result =>
      simp only [advance] at advanced
      split at advanced
      · split at advanced
        · cases advanced
          exact .broadcast
        · obtain ⟨resumed, spec, outcome⟩ := proceed_map_spec advanced
          cases outcome
          exact .sendError spec
      · cases advanced
  | registered result =>
      simp only [advance] at advanced
      split at advanced
      · split at advanced
        · cases advanced
          exact .register
        · obtain ⟨resumed, spec, outcome⟩ := proceed_map_spec advanced
          cases outcome
          exact .registerError spec
      · cases advanced
  | watched ok =>
      simp only [advance] at advanced
      split at advanced
      · cases ok with
        | true =>
            cases advanced
            exact .watch
        | false =>
            simp only [Bool.false_eq_true, if_false] at advanced
            obtain ⟨resumed, spec, outcome⟩ := proceed_map_spec advanced
            cases outcome
            exact .timedOut spec
      · cases advanced
  | receipt result =>
      simp only [advance] at advanced
      split at advanced
      · obtain ⟨resumed, spec, outcome⟩ := proceed_map_spec advanced
        cases outcome
        exact .receiptCame spec
      · cases advanced

/-- Nothing the adapter does puts another message in a task's place. -/
theorem Advanced.carriesOn (advanced : Advanced chainId nowMs nonces task answer next nonces') :
    task.phase.CarriesOn next.phase := by
  cases advanced with
  | start spec | draw _ spec | strategyReturns spec | release spec | add spec | price spec
  | sendError spec | registerError spec | timedOut spec | receiptCame spec => exact spec.carriesOn
  | @iterate msg fee nonce count call next spec =>
      cases enterSend_eq chainId ⟨next, .entry⟩ with
      | inl entered =>
          rw [entered]
          exact spec.carriesOn
      | inr panics =>
          rw [panics]
          exact Phase.carriesOn_nothing rfl
  | drawPanic | bumpPanic | confirm => exact Phase.carriesOn_nothing rfl
  | strategyReleases | broadcast | register | watch => exact fun _ bears => bears
  | @resubmit msg pending call fee =>
      have spec : Phase.Resumed nowMs (.retrying msg pending)
        (.decision (.resubmit fee pending.replayToken)) _ := .resubmitted
      exact spec.carriesOn

end EthTask

end Bulkmail.Ethereum
