import Bulkmail.Ethereum.Adapter
import Bulkmail.Library.Runs

/-! # Tasks over one nonce manager

A `Sender<Eth>` at work: any number of message tasks and the block-triggered nonce
syncs, interleaved at their await points.  The sender decides when a task starts and
for which message, so any message may start at any time.  Two sets record what has
happened so far: the nonces whose watcher resolved and those whose call ended in
`Confirmed`.
-/

namespace Bulkmail.Ethereum

open Library Sender

structure System where
  chainId : ℕ
  nonces : NonceState
  tasks : List EthTask
  mined : Finset ℕ
  confirmed : Finset ℕ
  deriving DecidableEq

inductive SystemEvent where
  | spawn (msg : Message)
  | sync (onChainNonce : ℕ)
  | task (i nowMs : ℕ) (answer : EthAnswer)

namespace EthTask

/-- The nonce whose transaction this answer shows to be in a block. -/
def minedBy (task : EthTask) : EthAnswer → Finset ℕ
  | .watched true =>
      match task.phase, task.call with
      | .sending _ _ nonce _, .watching _ => {nonce}
      | _, _ => ∅
  | _ => ∅

/-- The nonce whose call this answer ends with `Confirmed`. -/
def confirmedBy (task : EthTask) : EthAnswer → Finset ℕ
  | .receipt (.ok (some true)) =>
      match task.phase, task.call with
      | .sending _ _ nonce _, .fetchingReceipt _ => {nonce}
      | _, _ => ∅
  | _ => ∅

end EthTask

namespace System

def new (chainId currentNonce : ℕ) : System := ⟨chainId, .new currentNonce, [], ∅, ∅⟩

def step (s : System) : SystemEvent → Option System
  | .spawn msg => some { s with tasks := s.tasks ++ [.start msg] }
  | .sync onChainNonce => some { s with nonces := s.nonces.updateCurrentNonce onChainNonce }
  | .task i nowMs answer => do
      let task ← s.tasks[i]?
      let (next, nonces) ← task.advance s.chainId nowMs s.nonces answer
      return { s with
        nonces
        tasks := s.tasks.set i next
        mined := task.minedBy answer ∪ s.mined
        confirmed := task.confirmedBy answer ∪ s.confirmed }

def Reachable (s : System) : Prop :=
  ∃ chainId currentNonce events, runs step (new chainId currentNonce) events = some s

variable {s s' : System} {event : SystemEvent} {i nowMs : ℕ} {answer : EthAnswer}

/-- A task's step, taken apart. -/
theorem task_step_spec (stepped : s.step (.task i nowMs answer) = some s') :
    ∃ task next nonces, s.tasks[i]? = some task ∧
      task.advance s.chainId nowMs s.nonces answer = some (next, nonces) ∧
      s' = { s with
        nonces
        tasks := s.tasks.set i next
        mined := task.minedBy answer ∪ s.mined
        confirmed := task.confirmedBy answer ∪ s.confirmed } := by
  obtain ⟨task, found, rest⟩ := Option.bind_eq_some_iff.mp stepped
  obtain ⟨⟨next, nonces⟩, advanced, result⟩ := Option.bind_eq_some_iff.mp rest
  exact ⟨task, next, nonces, found, advanced, (Option.some.inj result).symm⟩

end System

end Bulkmail.Ethereum
