import Bulkmail.Library.Channel
import Bulkmail.Mempool.Panics

/-! # The tracker and its transport

`mempooloracle/src/transport/rpc.rs` and `runtime.rs`: three tasks turn what the node sends
into events, a channel carries the events to the tracker's thread, and atomic counters keep
the telemetry.  Between two awaits a task runs on, but the other tasks and the thread run
beside it, so what a task does to the counters is one step and what it sends is another.
Dropping the runtime tells the tasks to end and aborts them at their next await; a task that
is sending the backfill has no await left and may see the signal or not.

No handle is in use: the tracker's lock is free whenever its thread takes it.
-/

namespace Bulkmail.Mempool

open Library

/-- What is read of a transaction as the node sends it. -/
structure RpcTransaction where
  txHash : TxId
  from_ : Address
  nonce : ℕ
  maxFeePerGas : ℕ
  maxPriorityFeePerGas : Option ℕ
  priorityFeeOrPrice : ℕ
  gasLimit : ℕ
  deriving DecidableEq, Repr

def alloyTxToPendingTx (tx : RpcTransaction) : PendingTx where
  id := tx.txHash
  sender := tx.from_
  nonce := tx.nonce
  maxFeePerGas := tx.maxFeePerGas
  maxPriorityFeePerGas := tx.maxPriorityFeePerGas.getD tx.priorityFeeOrPrice
  gasLimit := tx.gasLimit

/-- What is read of a block.  The next base fee is computed from the header outside. -/
structure RpcBlock where
  transactions : List RpcTransaction
  nextBlockBaseFee : Option ℕ
  baseFeePerGas : Option ℕ
  gasUsed : ℕ
  gasLimit : ℕ
  deriving DecidableEq, Repr

def RpcBlock.toUpdate (block : RpcBlock) : BlockUpdate where
  includedTxs := block.transactions.map alloyTxToPendingTx
  newBaseFee := (block.nextBlockBaseFee.or block.baseFeePerGas).getD 0
  gasUsed := block.gasUsed
  gasLimit := block.gasLimit

/-! ## Telemetry -/

structure RuntimeTelemetry where
  pendingSeen : ℕ
  blockCount : ℕ
  lastBlockTxs : ℕ
  lastBlockGasUsed : ℕ
  initialBackfillTxs : ℕ
  deriving DecidableEq, Repr

namespace RuntimeTelemetry

def new : RuntimeTelemetry := ⟨0, 0, 0, 0, 0⟩

variable (telemetry : RuntimeTelemetry)

def recordBackfillSize (txs : ℕ) : RuntimeTelemetry := { telemetry with initialBackfillTxs := txs }

/-- `fetch_add` wraps around. -/
def recordPendingSeen : RuntimeTelemetry :=
  { telemetry with pendingSeen := (telemetry.pendingSeen + 1) % u64Size }

def recordBlock (txs gasUsed : ℕ) : RuntimeTelemetry :=
  { telemetry with
    blockCount := (telemetry.blockCount + 1) % u64Size
    lastBlockTxs := txs
    lastBlockGasUsed := gasUsed }

end RuntimeTelemetry

/-! ## The runtime -/

inductive BlockTask where
  | waiting
  /-- A header has come and its block is being fetched. -/
  | fetching
  /-- The block is recorded and has not been sent. -/
  | sending (block : RpcBlock)
  | gone
  deriving DecidableEq, Repr

inductive PendingTask where
  | waiting
  /-- The transaction is recorded and has not been sent. -/
  | sending (tx : RpcTransaction)
  | gone
  deriving DecidableEq, Repr

inductive BackfillTask where
  | requesting
  | sending (rest : List PendingTx)
  | gone
  deriving DecidableEq, Repr

/-- The thread that runs `MempoolTracker::run`. -/
inductive TrackerState where
  | running (inner : MempoolInner)
  | panicked
  | stopped (inner : MempoolInner)

structure RpcRuntime where
  channel : Channel MempoolEvent none
  blockTask : BlockTask
  pendingTask : PendingTask
  backfillTask : BackfillTask
  tracker : TrackerState
  telemetry : RuntimeTelemetry
  /-- The runtime has been dropped. -/
  shutdown : Bool
  /-- The transactions the pending subscription has yielded and passed on. -/
  announced : List RpcTransaction
  /-- The blocks that have been fetched and passed on. -/
  fetched : List RpcBlock
  /-- What of the backfill has been passed on. -/
  backfilled : List PendingTx

inductive RuntimeEvent where
  | pending (tx : RpcTransaction)
  | pendingSends
  | pendingEnds
  | header
  | blockFetched (block : Option RpcBlock)
  | blockSends
  | blockEnds
  | poolFetched (contents : Option (List RpcTransaction))
  | backfillSends
  | backfillEnds
  | trackerReceives
  | dropped
  deriving DecidableEq, Repr

/-- What the program takes for granted of the node: nonces are not `u64::MAX`, and the gas
    limits of a block can be summed up. -/
def RuntimeEvent.Fits : RuntimeEvent → Prop
  | .pending tx => (alloyTxToPendingTx tx).NonceFits
  | .blockFetched (some block) =>
      (MempoolEvent.newBlock block.toUpdate).NoncesFit ∧
        (MempoolEvent.newBlock block.toUpdate).GasFits
  | .poolFetched (some txs) => ∀ tx ∈ txs, (alloyTxToPendingTx tx).NonceFits
  | _ => True

/-- The tasks that send. -/
inductive Source where
  | blocks
  | pending
  | backfill
  deriving DecidableEq, Repr

namespace RpcRuntime

def new (config : TrackerConfig) : RpcRuntime where
  channel := .new _ 3
  blockTask := .waiting
  pendingTask := .waiting
  backfillTask := .requesting
  tracker := .running (.new config)
  telemetry := .new
  shutdown := false
  announced := []
  fetched := []
  backfilled := []

variable (s : RpcRuntime)

/-- `run_pending_subscription` with the next transaction of its stream. -/
def seePending (tx : RpcTransaction) : RpcRuntime :=
  { s with telemetry := s.telemetry.recordPendingSeen, pendingTask := .sending tx }

def passPending (tx : RpcTransaction) : Option RpcRuntime :=
  (s.channel.send (.pendingTransaction (alloyTxToPendingTx tx))).map fun (ok, channel) =>
    if ok then { s with channel, pendingTask := .waiting, announced := s.announced ++ [tx] }
    else { s with channel := channel.dropSender, pendingTask := .gone }

/-- `run_block_subscription` with a block it has fetched. -/
def seeBlock (block : RpcBlock) : RpcRuntime :=
  let update := block.toUpdate
  { s with
    telemetry := s.telemetry.recordBlock update.includedTxs.length update.gasUsed
    blockTask := .sending block }

def passBlock (block : RpcBlock) : Option RpcRuntime :=
  (s.channel.send (.newBlock block.toUpdate)).map fun (ok, channel) =>
    if ok then { s with channel, blockTask := .waiting, fetched := s.fetched ++ [block] }
    else { s with channel := channel.dropSender, blockTask := .gone }

/-- One turn of the loop of `run_backfill`. -/
def passBackfill (tx : PendingTx) (rest : List PendingTx) : Option RpcRuntime :=
  (s.channel.send (.pendingTransaction tx)).map fun (ok, channel) =>
    if ok then
      { s with channel, backfillTask := .sending rest, backfilled := s.backfilled ++ [tx] }
    else { s with channel := channel.dropSender, backfillTask := .gone }

/-- What the tracker makes of what it receives; a panic takes the receiver with it. -/
def trackerReceived (inner : MempoolInner) (channel : Channel MempoolEvent none) :
    Option MempoolEvent → RpcRuntime
  | some event =>
      match MempoolTracker.stepChecked inner event with
      | some inner => { s with channel, tracker := .running inner }
      | none => { s with channel := channel.dropReceiver, tracker := .panicked }
  | none => { s with channel := channel.dropReceiver, tracker := .stopped inner }

def step : RuntimeEvent → Option RpcRuntime
  | .pending tx => if s.pendingTask = .waiting then some (s.seePending tx) else none
  | .pendingSends =>
      match s.pendingTask with
      | .sending tx => s.passPending tx
      | _ => none
  | .pendingEnds =>
      if s.pendingTask = .waiting then
        some { s with pendingTask := .gone, channel := s.channel.dropSender }
      else none
  | .header => if s.blockTask = .waiting then some { s with blockTask := .fetching } else none
  | .blockFetched block =>
      if s.blockTask = .fetching then
        match block with
        | some block => some (s.seeBlock block)
        | none => some { s with blockTask := .waiting }
      else none
  | .blockSends =>
      match s.blockTask with
      | .sending block => s.passBlock block
      | _ => none
  | .blockEnds =>
      -- the stream ends between blocks, an abort also comes while one is fetched
      if s.blockTask = .waiting ∨ s.blockTask = .fetching ∧ s.shutdown then
        some { s with blockTask := .gone, channel := s.channel.dropSender }
      else none
  | .poolFetched contents =>
      if s.backfillTask = .requesting then
        match contents with
        | some txs =>
            some { s with
              telemetry := s.telemetry.recordBackfillSize txs.length
              backfillTask := .sending (txs.map alloyTxToPendingTx) }
        | none => some { s with backfillTask := .gone, channel := s.channel.dropSender }
      else none
  | .backfillSends =>
      match s.backfillTask with
      | .sending (tx :: rest) => s.passBackfill tx rest
      | _ => none
  | .backfillEnds =>
      if s.backfillTask = .sending [] ∨ s.backfillTask ≠ .gone ∧ s.shutdown then
        some { s with backfillTask := .gone, channel := s.channel.dropSender }
      else none
  | .trackerReceives =>
      match s.tracker with
      | .running inner =>
          s.channel.recv.map fun (got, channel) => s.trackerReceived inner channel got
      | _ => none
  | .dropped => if s.shutdown then none else some { s with shutdown := true }

/-! ## What the tracker is fed -/

def Reachable (config : TrackerConfig) (s : RpcRuntime) : Prop :=
  ∃ events, (∀ event ∈ events, RuntimeEvent.Fits event) ∧ runs step (new config) events = some s

/-- How many of the tasks still hold a sender. -/
def working : ℕ :=
  (if s.blockTask = .gone then 0 else 1) + (if s.pendingTask = .gone then 0 else 1) +
    if s.backfillTask = .gone then 0 else 1

/-- The events each task has made of what it was given. -/
def passed : Source → List MempoolEvent
  | .blocks => s.fetched.map (.newBlock ·.toUpdate)
  | .pending => s.announced.map (.pendingTransaction <| alloyTxToPendingTx ·)
  | .backfill => s.backfilled.map .pendingTransaction

end RpcRuntime

/-- The tracker's state is what the events it has taken make of a new one, and it stops
    only when no more can come. -/
structure Plumbed (config : TrackerConfig) (working : ℕ) (passed : Source → List MempoolEvent)
    (channel : Channel MempoolEvent none) (tracker : TrackerState) : Prop where
  senders : channel.senders = working
  merged : Merged passed channel.sent
  fits : ∀ event ∈ channel.sent, event.NoncesFit ∧ event.GasFits
  follows : ∃ inner, runs MempoolTracker.stepChecked (.new config) channel.taken = some inner ∧
    MempoolTracker.Steady config inner ∧
    (tracker = .running inner ∧ channel.listening = true ∨
      tracker = .stopped inner ∧ channel.queue = [] ∧ working = 0)

namespace Plumbed

variable {config : TrackerConfig} {working : ℕ} {passed passed' : Source → List MempoolEvent}
  {channel channel' : Channel MempoolEvent none} {tracker : TrackerState} {event : MempoolEvent}

theorem listening (plumbed : Plumbed config working passed channel tracker) (busy : 0 < working) :
    channel.listening = true := by
  obtain ⟨inner, -, -, ⟨-, listening⟩ | ⟨-, -, idle⟩⟩ := plumbed.follows
  · exact listening
  · omega

theorem of_sent {ok : Bool} (source : Source)
    (plumbed : Plumbed config working passed channel tracker) (busy : 0 < working)
    (fits : event.NoncesFit ∧ event.GasFits) (sent : channel.Sent event ok channel') :
    ok = true ∧ ∀ passed' : Source → List MempoolEvent,
      passed' source = passed source ++ [event] →
      (∀ other, other ≠ source → passed' other = passed other) →
      Plumbed config working passed' channel' tracker := by
  cases sent with
  | accepted listening taken queue senders stays =>
      have grown : channel'.sent = channel.sent ++ [event] := by
        simp only [Channel.sent, taken, queue, List.append_assoc]
      refine ⟨rfl, fun passed' mine others => ⟨senders.trans plumbed.senders, ?_, ?_, ?_⟩⟩
      · rw [grown]
        exact plumbed.merged.snoc mine others
      · intro other member
        rw [grown, List.mem_append, List.mem_singleton] at member
        obtain earlier | rfl := member
        · exact plumbed.fits other earlier
        · exact fits
      · obtain ⟨inner, ran, steady, ⟨runs, -⟩ | ⟨-, -, idle⟩⟩ := plumbed.follows
        · exact ⟨inner, taken ▸ ran, steady, .inl ⟨runs, stays⟩⟩
        · omega
  | failed deaf => cases deaf.symm.trans (plumbed.listening busy)

theorem dropSender (plumbed : Plumbed config (working + 1) passed channel tracker) :
    Plumbed config working passed channel.dropSender tracker where
  senders := by simp [Channel.dropSender, plumbed.senders]
  merged := plumbed.merged
  fits := plumbed.fits
  follows := by
    obtain ⟨inner, ran, steady, runs | ⟨-, -, idle⟩⟩ := plumbed.follows
    · exact ⟨inner, ran, steady, .inl runs⟩
    · omega

theorem received {inner : MempoolInner} (slots : config.SlotsFit)
    (plumbed : Plumbed config working passed channel (.running inner))
    (received : channel.Received (some event) channel') :
    ∃ next, MempoolTracker.stepChecked inner event = some next ∧
      Plumbed config working passed channel' (.running next) := by
  obtain ⟨inner', ran, steady, ⟨same, listening⟩ | ⟨stopped, -⟩⟩ := plumbed.follows
  swap
  · cases stopped
  cases same
  cases received with
  | value queue taken senders listens =>
      have kept : channel'.sent = channel.sent := by
        simp only [Channel.sent, taken, queue, List.append_assoc, List.singleton_append]
      obtain ⟨nonces, gas⟩ := plumbed.fits event (by simp [Channel.sent, queue])
      obtain ⟨next, checked, still⟩ := steady.goes_on slots nonces gas
      refine ⟨next, checked, senders.trans plumbed.senders, kept ▸ plumbed.merged,
        kept ▸ plumbed.fits, next, ?_, still, .inl ⟨rfl, listens.trans listening⟩⟩
      rw [taken, runs_append, ran]
      simp [runs, checked]

theorem ended {inner : MempoolInner}
    (plumbed : Plumbed config working passed channel (.running inner))
    (ended : channel.Received none channel') :
    Plumbed config working passed channel'.dropReceiver (.stopped inner) := by
  obtain ⟨inner', ran, steady, ⟨same, -⟩ | ⟨stopped, -⟩⟩ := plumbed.follows
  swap
  · cases stopped
  cases same
  cases ended with
  | ended vacant none_ =>
      have kept : channel.dropReceiver.sent = channel.sent := by
        simp [Channel.sent, Channel.dropReceiver, vacant]
      exact ⟨plumbed.senders, kept ▸ plumbed.merged, kept ▸ plumbed.fits, inner, ran, steady,
        .inr ⟨rfl, rfl, plumbed.senders.symm.trans none_⟩⟩

end Plumbed

namespace RpcRuntime

/-- What is still to be sent of the backfill. -/
def unsent : BackfillTask → List PendingTx
  | .sending rest => rest
  | _ => []

/-- The transactions that have been recorded. -/
def seenPending (s : RpcRuntime) : List RpcTransaction :=
  match s.pendingTask with
  | .sending tx => s.announced ++ [tx]
  | _ => s.announced

/-- The blocks that have been recorded. -/
def seenBlocks (s : RpcRuntime) : List RpcBlock :=
  match s.blockTask with
  | .sending block => s.fetched ++ [block]
  | _ => s.fetched

/-- The counters and the backfill agree with what has gone through. -/
structure Counted (s : RpcRuntime) : Prop where
  pendingSeen : s.telemetry.pendingSeen = s.seenPending.length % u64Size
  blockCount : s.telemetry.blockCount = s.seenBlocks.length % u64Size
  lastBlockTxs : s.telemetry.lastBlockTxs = s.seenBlocks.getLast?.elim 0 (·.transactions.length)
  lastBlockGasUsed : s.telemetry.lastBlockGasUsed = s.seenBlocks.getLast?.elim 0 (·.gasUsed)
  unasked : s.backfillTask = .requesting → s.backfilled = []
  backfill : s.backfilled.length + (unsent s.backfillTask).length ≤ s.telemetry.initialBackfillTxs
  whole : s.shutdown = false ∨ s.backfillTask ≠ .gone →
    s.telemetry.initialBackfillTxs ≤ s.backfilled.length + (unsent s.backfillTask).length

structure Fed (config : TrackerConfig) (s : RpcRuntime) : Prop where
  plumbed : Plumbed config s.working s.passed s.channel s.tracker
  counted : Counted s
  backfillFits : ∀ tx ∈ unsent s.backfillTask, tx.NonceFits
  pendingFits : ∀ tx, s.pendingTask = .sending tx → (alloyTxToPendingTx tx).NonceFits
  blockFits : ∀ block, s.blockTask = .sending block →
    (RuntimeEvent.blockFetched (some block)).Fits

variable {config : TrackerConfig} {s s' : RpcRuntime} {event : RuntimeEvent}

/-- A move of the block task with no block in its hands. -/
theorem Counted.moved {task : BlockTask} (counted : Counted s) (seen : s.seenBlocks = s.fetched)
    (still : { s with blockTask := task }.seenBlocks = s.fetched) :
    Counted { s with blockTask := task } where
  pendingSeen := counted.pendingSeen
  blockCount := by rw [still, ← seen]; exact counted.blockCount
  lastBlockTxs := by rw [still, ← seen]; exact counted.lastBlockTxs
  lastBlockGasUsed := by rw [still, ← seen]; exact counted.lastBlockGasUsed
  unasked := counted.unasked
  backfill := counted.backfill
  whole := counted.whole

theorem fed_new (config : TrackerConfig) : Fed config (new config) where
  plumbed :=
    { senders := by simp [new, working, Channel.new]
      merged := merged_nil fun source => by cases source <;> rfl
      fits := by simp [new, Channel.new, Channel.sent]
      follows := ⟨.new config, rfl, MempoolTracker.Steady.new config, .inl ⟨rfl, rfl⟩⟩ }
  counted := by constructor <;> simp [new, RuntimeTelemetry.new, unsent, seenPending, seenBlocks]
  backfillFits := by simp [new, unsent]
  pendingFits := by simp [new]
  blockFits := by simp [new]

theorem pending_fits {tx : PendingTx} (fits : tx.NonceFits) :
    (MempoolEvent.pendingTransaction tx).NoncesFit ∧
      (MempoolEvent.pendingTransaction tx).GasFits :=
  ⟨MempoolEvent.noncesFit_pending fits, trivial⟩

theorem fed_pending {tx : RpcTransaction} (fed : Fed config s)
    (here : s.pendingTask = .sending tx) (stepped : s.passPending tx = some s') :
    Fed config s' := by
  obtain ⟨⟨ok, channel⟩, sent, rfl⟩ := Option.map_eq_some_iff.mp stepped
  have busy : 0 < s.working := by simp [working, here]
  obtain ⟨rfl, plumbed⟩ := fed.plumbed.of_sent .pending busy
    (pending_fits (fed.pendingFits tx here)) (Channel.send_spec sent)
  have same : { s with pendingTask := .waiting }.working = s.working := by simp [working, here]
  refine ⟨?_, ?_, fed.backfillFits, by simp, fed.blockFits⟩
  · refine same ▸ plumbed _ ?_ ?_
    · simp [passed]
    · intro other different
      cases other with
      | blocks | backfill => rfl
      | pending => exact absurd rfl different
  · have counted := fed.counted
    have seen := counted.pendingSeen
    simp only [seenPending, here] at seen
    exact { counted with pendingSeen := seen }

theorem fed_block {block : RpcBlock} (fed : Fed config s) (here : s.blockTask = .sending block)
    (stepped : s.passBlock block = some s') : Fed config s' := by
  obtain ⟨⟨ok, channel⟩, sent, rfl⟩ := Option.map_eq_some_iff.mp stepped
  have busy : 0 < s.working := by simp [working, here]
  obtain ⟨rfl, plumbed⟩ :=
    fed.plumbed.of_sent .blocks busy (fed.blockFits block here) (Channel.send_spec sent)
  have same : { s with blockTask := .waiting }.working = s.working := by simp [working, here]
  refine ⟨?_, ?_, fed.backfillFits, fed.pendingFits, by simp⟩
  · refine same ▸ plumbed _ ?_ ?_
    · simp [passed]
    · intro other different
      cases other with
      | pending | backfill => rfl
      | blocks => exact absurd rfl different
  · have counted := fed.counted
    have count := counted.blockCount
    have txs := counted.lastBlockTxs
    have gasUsed := counted.lastBlockGasUsed
    simp only [seenBlocks, here] at count txs gasUsed
    exact { counted with blockCount := count, lastBlockTxs := txs, lastBlockGasUsed := gasUsed }

theorem fed_backfill {tx : PendingTx} {rest : List PendingTx} (fed : Fed config s)
    (here : s.backfillTask = .sending (tx :: rest)) (stepped : s.passBackfill tx rest = some s') :
    Fed config s' := by
  obtain ⟨⟨ok, channel⟩, sent, rfl⟩ := Option.map_eq_some_iff.mp stepped
  have busy : 0 < s.working := by simp [working, here]
  have fits := fed.backfillFits
  simp only [here, unsent, List.forall_mem_cons] at fits
  obtain ⟨rfl, plumbed⟩ :=
    fed.plumbed.of_sent .backfill busy (pending_fits fits.1) (Channel.send_spec sent)
  have same : { s with backfillTask := .sending rest }.working = s.working := by
    simp [working, here]
  refine ⟨?_, ?_, fits.2, fed.pendingFits, fed.blockFits⟩
  · refine same ▸ plumbed _ ?_ ?_
    · simp [passed]
    · intro other different
      cases other with
      | pending | blocks => rfl
      | backfill => exact absurd rfl different
  · have counted := fed.counted
    have backfill := counted.backfill
    have whole := counted.whole (.inr (by simp [here]))
    simp only [here, unsent, List.length_cons] at backfill whole
    exact { counted with
      unasked := by simp
      backfill := by simp [unsent]; omega
      whole := by simp [unsent]; omega }

theorem fed_backfill_gone (fed : Fed config s) (here : s.backfillTask ≠ .gone)
    (told : unsent s.backfillTask = [] ∨ s.shutdown = true) :
    Fed config { s with backfillTask := .gone, channel := s.channel.dropSender } where
  plumbed := by
    have plumbed := fed.plumbed
    have more : s.working = { s with backfillTask := .gone }.working + 1 := by simp [working, here]
    rw [more] at plumbed
    exact plumbed.dropSender
  counted := by
    have counted := fed.counted
    have backfill := counted.backfill
    have whole := counted.whole (.inr here)
    exact { counted with
      unasked := by simp
      backfill := by simp [unsent]; omega
      whole := fun alive => by
        obtain nothing | down := told
        · rw [nothing] at whole
          exact whole
        · simp [down] at alive }
  backfillFits := by simp [unsent]
  pendingFits := fed.pendingFits
  blockFits := fed.blockFits

theorem fed_step (slots : config.SlotsFit) (fed : Fed config s) (fits : event.Fits)
    (stepped : s.step event = some s') : Fed config s' := by
  have counted := fed.counted
  cases event with
  | pending tx =>
      obtain ⟨here, sees⟩ := Option.ite_none_right_eq_some.mp stepped
      cases sees
      have same : { s with pendingTask := .sending tx }.working = s.working := by
        simp [working, here]
      have seen := counted.pendingSeen
      simp only [seenPending, here] at seen
      refine ⟨same ▸ fed.plumbed, { counted with pendingSeen := ?_ }, fed.backfillFits, ?_,
        fed.blockFits⟩
      · simp [seenPending, seePending, RuntimeTelemetry.recordPendingSeen, seen]
      · intro tx' same
        cases same
        exact fits
  | pendingSends =>
      simp only [step] at stepped
      split at stepped
      · rename_i tx here
        exact fed_pending fed here stepped
      · cases stepped
  | pendingEnds =>
      obtain ⟨here, ends⟩ := Option.ite_none_right_eq_some.mp stepped
      cases ends
      have plumbed := fed.plumbed
      have more : s.working = { s with pendingTask := .gone }.working + 1 := by
        simp [working, here]
        omega
      rw [more] at plumbed
      have seen := counted.pendingSeen
      simp only [seenPending, here] at seen
      exact ⟨plumbed.dropSender, { counted with pendingSeen := seen }, fed.backfillFits, by simp,
        fed.blockFits⟩
  | header =>
      obtain ⟨here, moves⟩ := Option.ite_none_right_eq_some.mp stepped
      cases moves
      have same : { s with blockTask := .fetching }.working = s.working := by simp [working, here]
      exact ⟨same ▸ fed.plumbed, counted.moved (by simp [seenBlocks, here]) rfl,
        fed.backfillFits, fed.pendingFits, by simp⟩
  | blockFetched block =>
      obtain ⟨here, fetched⟩ := Option.ite_none_right_eq_some.mp stepped
      have seen : s.seenBlocks = s.fetched := by simp [seenBlocks, here]
      cases block with
      | some block =>
          cases fetched
          have same : { s with blockTask := .sending block }.working = s.working := by
            simp [working, here]
          have count := counted.blockCount
          rw [seen] at count
          refine ⟨same ▸ fed.plumbed, { counted with
            blockCount := ?_, lastBlockTxs := ?_, lastBlockGasUsed := ?_ }, fed.backfillFits,
            fed.pendingFits, ?_⟩
          · simp [seenBlocks, seeBlock, RuntimeTelemetry.recordBlock, count, Nat.add_mod]
          · simp [seenBlocks, seeBlock, RuntimeTelemetry.recordBlock, RpcBlock.toUpdate]
          · simp [seenBlocks, seeBlock, RuntimeTelemetry.recordBlock, RpcBlock.toUpdate]
          · intro block' same
            cases same
            exact fits
      | none =>
          cases fetched
          have same : { s with blockTask := .waiting }.working = s.working := by
            simp [working, here]
          exact ⟨same ▸ fed.plumbed, counted.moved seen rfl, fed.backfillFits, fed.pendingFits,
            by simp⟩
  | blockSends =>
      simp only [step] at stepped
      split at stepped
      · rename_i block here
        exact fed_block fed here stepped
      · cases stepped
  | blockEnds =>
      obtain ⟨here, ends⟩ := Option.ite_none_right_eq_some.mp stepped
      cases ends
      obtain ⟨alive, seen⟩ : s.blockTask ≠ .gone ∧ s.seenBlocks = s.fetched := by
        obtain waiting | ⟨fetching, -⟩ := here
        · simp [seenBlocks, waiting]
        · simp [seenBlocks, fetching]
      have plumbed := fed.plumbed
      have more : s.working = { s with blockTask := .gone }.working + 1 := by
        simp [working, alive]
        omega
      rw [more] at plumbed
      have moved : Counted { s with blockTask := .gone } := counted.moved seen rfl
      exact ⟨plumbed.dropSender, { moved with }, fed.backfillFits, fed.pendingFits, by simp⟩
  | poolFetched contents =>
      obtain ⟨here, fetched⟩ := Option.ite_none_right_eq_some.mp stepped
      cases contents with
      | none =>
          cases fetched
          exact fed_backfill_gone fed (by simp [here]) (.inl (by simp [here, unsent]))
      | some txs =>
          cases fetched
          have same : { s with backfillTask := .sending (txs.map alloyTxToPendingTx) }.working =
              s.working := by simp [working, here]
          have none_ := counted.unasked here
          refine ⟨same ▸ fed.plumbed, { counted with
            unasked := by simp
            backfill := by simp [none_, unsent, RuntimeTelemetry.recordBackfillSize]
            whole := by simp [none_, unsent, RuntimeTelemetry.recordBackfillSize] }, ?_,
            fed.pendingFits, fed.blockFits⟩
          exact List.forall_mem_map.mpr fits
  | backfillSends =>
      simp only [step] at stepped
      split at stepped
      · rename_i tx rest here
        exact fed_backfill fed here stepped
      · cases stepped
  | backfillEnds =>
      obtain ⟨here, ends⟩ := Option.ite_none_right_eq_some.mp stepped
      cases ends
      obtain sent | ⟨alive, down⟩ := here
      · exact fed_backfill_gone fed (by simp [sent]) (.inl (by simp [sent, unsent]))
      · exact fed_backfill_gone fed alive (.inr down)
  | trackerReceives =>
      simp only [step] at stepped
      split at stepped
      · rename_i inner running
        obtain ⟨⟨got, channel⟩, received, rfl⟩ := Option.map_eq_some_iff.mp stepped
        have plumbed := fed.plumbed
        rw [running] at plumbed
        cases got with
        | some event =>
            obtain ⟨next, checked, plumbed'⟩ :=
              plumbed.received slots (Channel.recv_spec received)
            simp only [trackerReceived, checked]
            exact ⟨plumbed', { counted with }, fed.backfillFits, fed.pendingFits, fed.blockFits⟩
        | none =>
            exact ⟨plumbed.ended (Channel.recv_spec received), { counted with },
              fed.backfillFits, fed.pendingFits, fed.blockFits⟩
      · cases stepped
  | dropped =>
      obtain ⟨here, drops⟩ := Option.ite_none_left_eq_some.mp stepped
      cases drops
      exact ⟨fed.plumbed, { counted with
        whole := fun alive => counted.whole (.inr (alive.resolve_left (by simp))) },
        fed.backfillFits, fed.pendingFits, fed.blockFits⟩

theorem Reachable.fed (slots : config.SlotsFit) (reached : Reachable config s) : Fed config s := by
  obtain ⟨events, fit, ran⟩ := reached
  exact runs_invariant_of_forall (fun _ _ _ held fits stepped => fed_step slots held fits stepped)
    (fed_new config) fit ran

/-- Without its senders the tracker goes through what is queued and stops. -/
theorem Fed.drains {inner : MempoolInner} (slots : config.SlotsFit) (fed : Fed config s)
    (idle : s.working = 0) (running : s.tracker = .running inner) :
    ∃ final last, runs step s (.replicate (s.channel.queue.length + 1) .trackerReceives) =
        some final ∧ final.tracker = .stopped last ∧
      runs MempoolTracker.stepChecked inner s.channel.queue = some last := by
  induction pending : s.channel.queue generalizing s inner with
  | nil =>
      have received := Channel.recv_of_vacant pending (fed.plumbed.senders.trans idle)
      have stepped : s.step .trackerReceives = some (s.trackerReceived inner s.channel none) := by
        simp [step, running, received]
      exact ⟨s.trackerReceived inner s.channel none, inner, by simp [runs, stepped], rfl, rfl⟩
  | cons event rest ih =>
      obtain ⟨channel, received, left⟩ := Channel.exists_recv_of_queue pending
      have plumbed := fed.plumbed
      rw [running] at plumbed
      obtain ⟨next, checked, -⟩ := plumbed.received slots (Channel.recv_spec received)
      have stepped : s.step .trackerReceives =
          some { s with channel := channel, tracker := .running next } := by
        simp [step, running, received, trackerReceived, checked]
      have fits : RuntimeEvent.trackerReceives.Fits := trivial
      obtain ⟨final, last, drained, stopped, rest_ran⟩ :=
        ih (fed_step slots fed fits stepped) idle rfl left
      refine ⟨final, last, ?_, stopped, ?_⟩
      · rw [List.length_cons, List.replicate_succ, runs, stepped]
        exact drained
      · rw [runs, checked]
        exact rest_ran

/-- With accounts of fewer than `2 ^ 55` slots the tracker never fails, its state is what the
    events it has taken make of a new one, and what it has taken and has yet to take is the
    three tasks' events, each task's in its order and none lost or repeated.  Once the tasks are
    gone, it goes through the rest and stops.  The telemetry counts what the tasks have seen:
    one transaction and one block may be counted and not yet sent. -/
theorem tracker_fed_in_order (slots : config.SlotsFit) (reached : Reachable config s) :
    (∃ inner, runs MempoolTracker.stepChecked (.new config) s.channel.taken = some inner ∧
      (s.tracker = .running inner ∨
        s.tracker = .stopped inner ∧ s.channel.queue = [] ∧ s.working = 0)) ∧
    Merged s.passed s.channel.sent ∧
    (s.working = 0 → ∀ inner, s.tracker = .running inner →
      ∃ final last, runs step s (.replicate (s.channel.queue.length + 1) .trackerReceives) =
          some final ∧ final.tracker = .stopped last ∧
        runs MempoolTracker.stepChecked (.new config) s.channel.sent = some last) ∧
    s.telemetry.pendingSeen = s.seenPending.length % u64Size ∧
    s.telemetry.blockCount = s.seenBlocks.length % u64Size ∧
    s.telemetry.lastBlockTxs = s.seenBlocks.getLast?.elim 0 (·.transactions.length) ∧
    s.telemetry.lastBlockGasUsed = s.seenBlocks.getLast?.elim 0 (·.gasUsed) ∧
    s.backfilled.length ≤ s.telemetry.initialBackfillTxs ∧
    (s.backfillTask = .gone → s.shutdown = false →
      s.backfilled.length = s.telemetry.initialBackfillTxs) := by
  have fed := reached.fed slots
  have counted := fed.counted
  obtain ⟨inner, ran, -, now⟩ := fed.plumbed.follows
  refine ⟨⟨inner, ran, now.imp_left And.left⟩, fed.plumbed.merged, ?_, counted.pendingSeen,
    counted.blockCount, counted.lastBlockTxs, counted.lastBlockGasUsed,
    (Nat.le_add_right _ _).trans counted.backfill, ?_⟩
  · intro idle inner' running
    obtain ⟨same, -⟩ | ⟨stopped, -⟩ := now
    · cases running.symm.trans same
      obtain ⟨final, last, drained, stopped, rest_ran⟩ := fed.drains slots idle running
      refine ⟨final, last, drained, stopped, ?_⟩
      rw [Channel.sent, runs_append, ran]
      exact rest_ran
    · cases running.symm.trans stopped
  · intro gone up
    have whole := counted.whole (.inl up)
    have backfill := counted.backfill
    rw [gone] at whole backfill
    exact Nat.le_antisymm backfill whole

/-- A transaction is announced while the backfill is sent, a block comes, and the runtime is
    dropped with half of the backfill unsent. -/
theorem tracker_fed_until_dropped :
    let tx (n : ℕ) : RpcTransaction := ⟨Fin.ofNat _ n, Fin.ofNat _ n, 0, 20, none, 3, 21000⟩
    let events := [.poolFetched (some [tx 1, tx 2]), .header, .backfillSends, .pending (tx 3),
      .trackerReceives, .blockFetched (some ⟨[tx 1], none, some 7, 21000, 30000000⟩),
      .pendingSends, .dropped, .blockSends, .backfillEnds, .pendingEnds, .blockEnds]
    ∃ s, runs step (new (sampleConfig 2)) events = some s ∧ s.channel.taken.length = 1 ∧
      s.channel.queue.length = 2 ∧ s.working = 0 ∧ Merged s.passed s.channel.sent ∧
      ∃ final last, runs step s (.replicate 3 .trackerReceives) = some final ∧
        final.tracker = .stopped last ∧
        runs MempoolTracker.stepChecked (.new (sampleConfig 2)) s.channel.sent = some last := by
  intro tx events
  have shown : (runs step (new (sampleConfig 2)) events).map
      (fun s => (s.channel.taken.length, s.channel.queue.length, s.working)) =
        some (1, 2, 0) := by decide +kernel
  obtain ⟨s, ran, now⟩ := Option.map_eq_some_iff.mp shown
  obtain ⟨taken, queued, idle⟩ : s.channel.taken.length = 1 ∧ s.channel.queue.length = 2 ∧
      s.working = 0 := by simpa using now
  have reached : Reachable (sampleConfig 2) s :=
    ⟨events, by simp [events, tx, RuntimeEvent.Fits, PendingTx.NonceFits, alloyTxToPendingTx,
      u64Size, MempoolEvent.NoncesFit, MempoolEvent.txs, MempoolEvent.GasFits, RpcBlock.toUpdate],
      ran⟩
  obtain ⟨⟨inner, -, running | stopped⟩, merged, drains, -⟩ :=
    tracker_fed_in_order (by decide) reached
  · have drained := drains idle inner running
    rw [queued] at drained
    exact ⟨s, ran, taken, queued, idle, merged, drained⟩
  · rw [stopped.2.1] at queued
    cases queued

end RpcRuntime

end Bulkmail.Mempool
