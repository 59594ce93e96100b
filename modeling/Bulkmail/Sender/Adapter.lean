import Bulkmail.Sender.Message

/-! # The chain adapter's types

What `Sender` exchanges with the components of a `ChainAdapter`.  The adapter's three
data types are parameters; its client, fee manager, replay protection and strategy
appear only through the results they return.
-/

namespace Bulkmail.Sender

/-- `RpcError<TransportErrorKind>`, of which only an error response's code is read. -/
inductive RpcError where
  | errorResp (code : ℤ)
  | other (text : String)
  deriving DecidableEq, Repr

/-- `chain::Error` -/
inductive ChainError where
  | rpc (error : RpcError)
  | subscription (text : String)
  | signing (text : String)
  deriving DecidableEq, Repr

/-- The crate's `Error`. -/
inductive Error where
  | rpcError (error : RpcError)
  | signingError (text : String)
  | pendingTransaction (text : String)
  | tooManyDependencies (count : ℕ)
  | gasPriceError (text : String)
  | messageExpired
  | retriesExceeded
  | feeIncreasesExceeded
  | gasPriceTooLow
  | simulationFailed
  | chainError (error : ChainError)
  | transactionDropped (hash : Fin (2 ^ 256))
  | transactionReverted (hash : Fin (2 ^ 256))
  | subscriptionClosed
  | solanaError (text : String)
  deriving DecidableEq, Repr

def txFailureInsufficientFunds : ℤ := -32003

namespace Error

/-- The one error the spawned task's handler treats apart. -/
def IsInsufficientFunds : Error → Prop
  | .chainError (.rpc (.errorResp code)) => code = txFailureInsufficientFunds
  | _ => False

instance : DecidablePred IsInsufficientFunds := fun error => by
  unfold IsInsufficientFunds
  split <;> infer_instance

end Error

inductive SendOutcome (TxId : Type) where
  | confirmed (txId : TxId)
  | dropped (txId : TxId)
  | reverted (txId : TxId)
  deriving DecidableEq, Repr

inductive RetryDecision (Fee Token : Type) where
  | resubmit (fee : Fee) (replayToken : Token)
  | requeue
  | abandon
  deriving DecidableEq, Repr

structure PendingTransaction (Fee Token TxId : Type) where
  msg : Message
  txId : TxId
  fee : Fee
  replayToken : Token
  replacementCount : ℕ
  deriving DecidableEq, Repr

end Bulkmail.Sender
