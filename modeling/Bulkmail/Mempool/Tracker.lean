import Bulkmail.Library.Cells
import Bulkmail.Library.Checked
import Bulkmail.Library.Collections
import Bulkmail.Library.Runs

/-! # The mempool tracker

The state behind a `MempoolHandle` and the two operations that change it.  Every
definition follows `mempooloracle/src/lib.rs`.  A result of `none` is a panic: the
write lock is poisoned and the tracker thread is gone.

Ids and addresses are byte strings compared lexicographically, which is the order
of the big-endian numbers they spell.  `BTreeMap<_, ()>` is an ordered finite set
and `HashMap` a finite map.  `usize` is taken to be 64 bits wide.
-/

namespace Bulkmail.Mempool

open Library

abbrev TxId := Fin (2 ^ 256)

abbrev Address := Fin (2 ^ 160)

structure PendingTx where
  id : TxId
  sender : Address
  nonce : ℕ
  maxFeePerGas : ℕ
  maxPriorityFeePerGas : ℕ
  gasLimit : ℕ
  deriving DecidableEq, Repr

structure BlockUpdate where
  includedTxs : List PendingTx
  newBaseFee : ℕ
  gasUsed : ℕ
  gasLimit : ℕ
  deriving DecidableEq, Repr

inductive MempoolEvent where
  | pendingTransaction (tx : PendingTx)
  | newBlock (block : BlockUpdate)
  deriving DecidableEq, Repr

structure TrackerConfig where
  initialBaseFee : ℕ
  globalCapacity : ℕ
  perAccountCapacity : ℕ
  privateFlowPrior : Float

structure AccountQueue where
  confirmedNonce : ℕ
  -- `slots[i]` is for nonce `confirmedNonce + i`
  slots : List (Option PendingTx)
  deriving DecidableEq, Repr

abbrev AccountQueues := Finmap fun _ : Address => AccountQueue

-- `(max_fee_per_gas, sender, nonce)`
abbrev EligibilityKey := ℕ × Address × ℕ

structure PriorityKey where
  fee : ℕ
  addr : Address
  nonce : ℕ
  deriving DecidableEq, Repr

/-- The order of `(Reverse(fee), addr, nonce)`: high fees come first. -/
instance : LinearOrder PriorityKey :=
  LinearOrder.lift' (fun key => toLex (OrderDual.toDual key.fee, toLex (key.addr, key.nonce)))
    (by rintro ⟨fee, addr, nonce⟩ ⟨fee', addr', nonce'⟩ same; simpa using same)

theorem PriorityKey.fee_le {first other : PriorityKey} (le : first ≤ other) :
    other.fee ≤ first.fee := by
  change toLex (OrderDual.toDual first.fee, toLex (first.addr, first.nonce)) ≤
    toLex (OrderDual.toDual other.fee, toLex (other.addr, other.nonce)) at le
  rcases Prod.Lex.le_iff.mp le with less | ⟨same, -⟩
  · exact Nat.le_of_lt (OrderDual.toDual_lt_toDual.mp less)
  · exact Nat.le_of_eq (OrderDual.toDual_inj.mp same).symm

structure MempoolInner where
  accountQueues : AccountQueues
  baseFeeEligibility : Finset EligibilityKey
  priorityQueue : Finset PriorityKey
  config : TrackerConfig
  currentBaseFee : ℕ
  privateFlowRatio : Float
  lastBlockGasLimit : ℕ

namespace PendingTx

def effectivePriorityFee (tx : PendingTx) (baseFee : ℕ) : ℕ :=
  min tx.maxPriorityFeePerGas (tx.maxFeePerGas - baseFee)

def eligibilityKey (tx : PendingTx) : EligibilityKey := (tx.maxFeePerGas, tx.sender, tx.nonce)

def priorityKey (tx : PendingTx) (baseFee : ℕ) : PriorityKey :=
  ⟨tx.effectivePriorityFee baseFee, tx.sender, tx.nonce⟩

end PendingTx

namespace AccountQueue

def txAt (q : AccountQueue) (nonce : ℕ) : Option PendingTx := cellAt q.confirmedNonce q.slots nonce

def vacate (q : AccountQueue) (nonce : ℕ) : AccountQueue :=
  { q with slots := q.slots.set (nonce - q.confirmedNonce) none }

/-- Make room for a nonce below the confirmed one by prepending empty slots.
    The inner `none` is the early return of `insert`.  That a vector can hold them is
    checked in `rebaseChecked`, which agrees for capacities below `2 ^ 55`. -/
def rebase (q : AccountQueue) (capacity nonce : ℕ) : Option (Option AccountQueue) :=
  if nonce < q.confirmedNonce then
    (checkedAdd u64Size (q.confirmedNonce - nonce) q.slots.length).map fun needed =>
      if capacity < needed then none
      else some ⟨nonce, List.replicate (q.confirmedNonce - nonce) none ++ q.slots⟩
  else some (some q)

/-- As above, `placeChecked` checks the growth. -/
def place (q : AccountQueue) (tx : PendingTx) : AccountQueue :=
  let slotIndex := tx.nonce - q.confirmedNonce
  -- `resize` only ever grows the slots, as padding does
  { q with slots := (q.slots.rightpad (slotIndex + 1) none).set slotIndex (some tx) }

/-- Raise the confirmed nonce and drain the slots below it. -/
def confirmTo (q : AccountQueue) (nonce : ℕ) : AccountQueue :=
  let confirmedNonce := max q.confirmedNonce nonce
  let drainCount := confirmedNonce - q.confirmedNonce
  { confirmedNonce
    slots :=
      if 0 < drainCount then
        if drainCount < q.slots.length then q.slots.drop drainCount else []
      else q.slots }

end AccountQueue

/-! ## Rebuilding the priority queue -/

/-- One slot of the forward scan; the flag is `nonce_bound`. -/
def rescanSlot (baseFee : ℕ) (scan : Bool × Finset PriorityKey) :
    Option PendingTx → Bool × Finset PriorityKey
  | some tx =>
      if scan.1 then scan
      else if tx.maxFeePerGas < baseFee then (true, scan.2)
      else if 0 < tx.effectivePriorityFee baseFee then
        (scan.1, insert (tx.priorityKey baseFee) scan.2)
      else (true, scan.2)
  | none => (true, scan.2)

def rescanAccount (baseFee : ℕ) (queue : Finset PriorityKey) (q : AccountQueue) :
    Finset PriorityKey :=
  (q.slots.foldl (rescanSlot baseFee) (false, queue)).2

/-- The scan's flag does not depend on the queue, and the queue only grows by
    what the slots contribute. -/
theorem foldl_rescanSlot (baseFee : ℕ) (slots : List (Option PendingTx)) (bound : Bool)
    (queue : Finset PriorityKey) :
    (slots.foldl (rescanSlot baseFee) (bound, queue)).2 =
      queue ∪ (slots.foldl (rescanSlot baseFee) (bound, ∅)).2 := by
  induction slots generalizing bound queue with
  | nil => simp
  | cons slot rest ih =>
      rw [List.foldl_cons, List.foldl_cons]
      cases slot with
      | none => exact ih true queue
      | some tx =>
          simp only [rescanSlot]
          split
          · exact ih bound queue
          · split
            · exact ih true queue
            · split
              · rw [ih, ih bound (insert _ ∅), Finset.insert_union, Finset.insert_union,
                  Finset.empty_union, Finset.union_insert]
              · exact ih true queue

theorem rescanAccount_eq_union (baseFee : ℕ) (queue : Finset PriorityKey) (q : AccountQueue) :
    rescanAccount baseFee queue q = queue ∪ rescanAccount baseFee ∅ q :=
  foldl_rescanSlot baseFee q.slots false queue

theorem rescanAccount_comm (baseFee : ℕ) (queue : Finset PriorityKey) (q q' : AccountQueue) :
    rescanAccount baseFee (rescanAccount baseFee queue q) q' =
      rescanAccount baseFee (rescanAccount baseFee queue q') q := by
  rw [rescanAccount_eq_union baseFee (rescanAccount baseFee queue q),
    rescanAccount_eq_union baseFee (rescanAccount baseFee queue q'),
    rescanAccount_eq_union baseFee queue q, rescanAccount_eq_union baseFee queue q',
    Finset.union_right_comm]

/-- Step 5 of `apply_block`: scan the accounts, in whatever order the map yields
    them, into a cleared queue. -/
def rebuildPriorityQueue (baseFee : ℕ) (queues : AccountQueues) : Finset PriorityKey :=
  queues.foldl (fun queue _ q => rescanAccount baseFee queue q)
    (fun queue _ q _ q' => rescanAccount_comm baseFee queue q q') ∅

namespace MempoolInner

def new (config : TrackerConfig) : MempoolInner where
  accountQueues := ∅
  baseFeeEligibility := ∅
  priorityQueue := ∅
  config := config
  currentBaseFee := config.initialBaseFee
  privateFlowRatio := config.privateFlowPrior
  lastBlockGasLimit := 30_000_000

def setQueue (s : MempoolInner) (addr : Address) (q : AccountQueue) : MempoolInner :=
  { s with accountQueues := s.accountQueues.insert addr q }

def effectivePriorityFee (s : MempoolInner) (tx : PendingTx) : ℕ :=
  tx.effectivePriorityFee s.currentBaseFee

/-! ## Inserting a pending transaction -/

def IsFull (s : MempoolInner) : Prop := s.config.globalCapacity ≤ s.baseFeeEligibility.card

instance (s : MempoolInner) : Decidable s.IsFull :=
  inferInstanceAs (Decidable (s.config.globalCapacity ≤ s.baseFeeEligibility.card))

/-- Pop the key and clear the slot it names, if a transaction is still there. -/
def evict (s : MempoolInner) (worst : PriorityKey) : Option MempoolInner :=
  let popped := { s with priorityQueue := s.priorityQueue.erase worst }
  match s.accountQueues.lookup worst.addr with
  | none => some popped
  | some q =>
      (checkedSub worst.nonce q.confirmedNonce).map fun nonceOffset =>
        match q.slots[nonceOffset]? with
        | some (some evictedTx) =>
            { popped.setQueue worst.addr (q.vacate worst.nonce) with
              baseFeeEligibility := s.baseFeeEligibility.erase
                (evictedTx.maxFeePerGas, worst.addr, worst.nonce) }
        | _ => popped

def queueFor (s : MempoolInner) (tx : PendingTx) : AccountQueue :=
  (s.accountQueues.lookup tx.sender).getD { confirmedNonce := tx.nonce, slots := [] }

/-- The part of `insert` behind the global capacity check. -/
def track (s : MempoolInner) (tx : PendingTx) : Option MempoolInner :=
  ((s.queueFor tx).rebase s.config.perAccountCapacity tx.nonce).map fun
    -- Both early returns leave the account in the map, also when it is new.
    | none => s.setQueue tx.sender (s.queueFor tx)
    | some q =>
        if s.config.perAccountCapacity ≤ tx.nonce - q.confirmedNonce then s.setQueue tx.sender q
        else
          { s.setQueue tx.sender (q.place tx) with
            baseFeeEligibility := insert tx.eligibilityKey s.baseFeeEligibility
            priorityQueue := insert (tx.priorityKey s.currentBaseFee) s.priorityQueue }

/-- The global capacity check with its eviction; the inner `none` is its early return. -/
def makeRoom (s : MempoolInner) (tx : PendingTx) : Option (Option MempoolInner) :=
  if s.IsFull then
    match firstKey s.priorityQueue with
    | none => some none
    | some worst =>
        if s.effectivePriorityFee tx ≤ worst.fee then some none else (s.evict worst).map some
  else some (some s)

def insert (s : MempoolInner) (tx : PendingTx) : Option MempoolInner :=
  (s.makeRoom tx).bind fun
    | none => some s
    | some s => s.track tx

/-! ## Queries -/

def findTxByAddrAndNonce (s : MempoolInner) (addr : Address) (nonce : ℕ) : Option PendingTx :=
  (s.accountQueues.lookup addr).bind fun q => q.txAt nonce

/-- The map's values come in an order of its own choosing, which the caller supplies. -/
def findTxById (values : List AccountQueue) (id : TxId) : Option PendingTx :=
  values.findSome? fun q => q.slots.findSome? fun slot => slot.filter fun tx => tx.id = id

def occupiedSlots (s : MempoolInner) : ℕ := total (fun q => occupied q.slots) s.accountQueues

/-! ## Applying a block -/

-- Step 1
def knownGasUsed (s : MempoolInner) (included : List PendingTx) : Option ℕ :=
  included.foldlM (fun gas tx =>
    if (s.findTxByAddrAndNonce tx.sender tx.nonce).isSome then checkedAdd u64Size gas tx.gasLimit
    else some gas) 0

def updatePrivateFlow (s : MempoolInner) (block : BlockUpdate) (knownGas : ℕ) : MempoolInner :=
  { s with
    privateFlowRatio :=
      if 0 < block.gasLimit then
        let observed := (block.gasUsed - knownGas).toFloat / block.gasLimit.toFloat
        0.1 * observed + (1.0 - 0.1) * s.privateFlowRatio
      else s.privateFlowRatio
    lastBlockGasLimit := block.gasLimit }

/-- Step 2: take an included transaction out of its slot and out of both indexes. -/
def removeIncluded (s : MempoolInner) (txInBlock : PendingTx) : MempoolInner :=
  match s.accountQueues.lookup txInBlock.sender with
  | none => s
  | some q =>
      match q.txAt txInBlock.nonce with
      | none => s
      | some mempoolTx =>
          { s.setQueue txInBlock.sender (q.vacate txInBlock.nonce) with
            baseFeeEligibility := s.baseFeeEligibility.erase mempoolTx.eligibilityKey
            priorityQueue := s.priorityQueue.erase (mempoolTx.priorityKey s.currentBaseFee) }

/-- Step 3: raise the sender's confirmed nonce past an included transaction. -/
def confirmIncluded (s : MempoolInner) (tx : PendingTx) : Option MempoolInner :=
  match s.accountQueues.lookup tx.sender with
  | none => some s
  | some q =>
      (checkedAdd u64Size tx.nonce 1).map fun next => s.setQueue tx.sender (q.confirmTo next)

/-- Steps 4 and 5: the new base fee and the queue that follows from it. -/
def reprice (s : MempoolInner) (newBaseFee : ℕ) : MempoolInner :=
  { s with
    currentBaseFee := newBaseFee
    priorityQueue := rebuildPriorityQueue newBaseFee s.accountQueues }

def applyBlock (s : MempoolInner) (block : BlockUpdate) : Option MempoolInner := do
  let knownGas ← s.knownGasUsed block.includedTxs
  let removed := block.includedTxs.foldl removeIncluded (s.updatePrivateFlow block knownGas)
  let confirmed ← runs confirmIncluded removed block.includedTxs
  return confirmed.reprice block.newBaseFee

/-! ## Classification -/

end MempoolInner

inductive TxClassification where
  | marketable
  | baseFeeInvalid
  | unmarketable
  | nonceBound
  deriving DecidableEq, Repr

namespace MempoolInner

-- A slot in front of a transaction that keeps it from being included
def blocks (baseFee : ℕ) : Option (Option PendingTx) → Bool
  | some (some tx) => tx.maxFeePerGas < baseFee || tx.effectivePriorityFee baseFee == 0
  | _ => true

def classifyTransaction (s : MempoolInner) (tx : PendingTx) : Option TxClassification :=
  match s.accountQueues.lookup tx.sender with
  | none => some .nonceBound
  | some q =>
      (checkedSub tx.nonce q.confirmedNonce).map fun ahead =>
        if (List.range ahead).any fun i => blocks s.currentBaseFee q.slots[i]? then .nonceBound
        else if tx.maxFeePerGas < s.currentBaseFee then .baseFeeInvalid
        else if s.effectivePriorityFee tx = 0 then .unmarketable
        else .marketable

end MempoolInner

/-! ## The tracker's event loop -/

namespace MempoolTracker

def step (s : MempoolInner) : MempoolEvent → Option MempoolInner
  | .pendingTransaction tx => s.insert tx
  | .newBlock block => s.applyBlock block

def fromChannel (config : TrackerConfig) (initialTxs : List PendingTx) : Option MempoolInner :=
  runs MempoolInner.insert (.new config) initialTxs

/-- The states of `config`'s tracker, over all initial slices and event sequences. -/
def Reachable (config : TrackerConfig) (s : MempoolInner) : Prop :=
  ∃ initialTxs start events, fromChannel config initialTxs = some start ∧
    runs step start events = some s

end MempoolTracker

/-- A transaction with a single gas limit and id, for concrete histories. -/
def sampleTx (sender : Address) (nonce maxFeePerGas maxPriorityFeePerGas : ℕ) : PendingTx :=
  ⟨0, sender, nonce, maxFeePerGas, maxPriorityFeePerGas, 21_000⟩

def sampleConfig (globalCapacity : ℕ) : TrackerConfig :=
  { initialBaseFee := 0, globalCapacity, perAccountCapacity := 10, privateFlowPrior := 0 }

/-- The state a concrete history leads to. -/
def sampleRun (globalCapacity : ℕ) (events : List MempoolEvent) : MempoolInner :=
  (runs MempoolTracker.step (.new (sampleConfig globalCapacity)) events).getD
    (.new (sampleConfig globalCapacity))

theorem reachable_sampleRun (globalCapacity : ℕ) (events : List MempoolEvent) :
    MempoolTracker.Reachable (sampleConfig globalCapacity) (sampleRun globalCapacity events) := by
  unfold sampleRun
  cases ran : runs MempoolTracker.step (.new (sampleConfig globalCapacity)) events with
  | none => exact ⟨[], _, [], rfl, rfl⟩
  | some s => exact ⟨[], _, events, rfl, ran⟩

end Bulkmail.Mempool
