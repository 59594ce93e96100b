import Bulkmail.Mempool.Capacity
import Bulkmail.Mempool.Arrival

/-! # No panic

The tracker's operations once more, with every subtraction, addition, index and drain of
the source checked where the source performs it, also where a branch in front of it makes
it safe, and so is every growth of an account's slots.  Most of these checks never fail
because of such a branch; then the checked operation is the plain one on every state.  What
is left rests on three facts that hold across operations: queued keys are not below their
account's floor, no account's window reaches `u64::MAX`, and nonces stay below it.

The slots are as many as their account is configured for at most.  That bound may itself be
more than a vector can hold: then one far nonce is enough to make the tracker fail.
-/

namespace Bulkmail.Mempool

open Library

/-- The bytes of one `Option<PendingTx>`. -/
def slotSize : ℕ := 128

/-- An account's slots never outgrow what a vector can hold. -/
def TrackerConfig.SlotsFit (config : TrackerConfig) : Prop := config.perAccountCapacity < 2 ^ 55

instance : DecidablePred TrackerConfig.SlotsFit := fun config =>
  inferInstanceAs (Decidable (config.perAccountCapacity < 2 ^ 55))

theorem TrackerConfig.SlotsFit.growsTo {config : TrackerConfig} (fits : config.SlotsFit)
    {length : ℕ} (within : length ≤ config.perAccountCapacity) : GrowsTo slotSize length := by
  unfold SlotsFit at fits
  unfold GrowsTo slotSize isizeMax
  omega

namespace AccountQueue

variable {q : AccountQueue} {tx : PendingTx} {capacity nonce n : ℕ}

def rebaseChecked (q : AccountQueue) (capacity nonce : ℕ) : Option (Option AccountQueue) :=
  if nonce < q.confirmedNonce then do
    let prepend ← checkedSub q.confirmedNonce nonce
    let needed ← checkedAdd u64Size prepend q.slots.length
    if capacity < needed then return none
    let shiftedSlots ← checkedReplicate slotSize prepend none
    let slots ← checkedAppend slotSize shiftedSlots q.slots
    return some ⟨nonce, slots⟩
  else some (some q)

def placeChecked (q : AccountQueue) (tx : PendingTx) : Option AccountQueue := do
  let slotIndex ← checkedSub tx.nonce q.confirmedNonce
  let resized ←
    (if q.slots.length ≤ slotIndex then
      (checkedAdd u64Size slotIndex 1).bind (checkedResize slotSize q.slots · none)
    else some q.slots)
  let slots ← checkedSet resized slotIndex (some tx)
  return { q with slots }

def confirmToChecked (q : AccountQueue) (nonce : ℕ) : Option AccountQueue := do
  let confirmedNonce := max q.confirmedNonce nonce
  let drainCount ← checkedSub confirmedNonce q.confirmedNonce
  let slots ←
    (if 0 < drainCount then
      if drainCount < q.slots.length then checkedDrain q.slots drainCount else some []
    else some q.slots)
  return { confirmedNonce, slots }

def txAtChecked (q : AccountQueue) (nonce : ℕ) : Option (Option PendingTx) :=
  if q.confirmedNonce ≤ nonce then
    (checkedSub nonce q.confirmedNonce).map fun offset => q.slots[offset]?.join
  else some none

theorem rebaseChecked_eq (grows : GrowsTo slotSize capacity) :
    q.rebaseChecked capacity nonce = q.rebase capacity nonce := by
  unfold rebaseChecked rebase
  split
  · rename_i below
    simp only [checkedSub_of_le below.le, Option.bind_eq_bind, Option.bind_some]
    cases sum : checkedAdd u64Size (q.confirmedNonce - nonce) q.slots.length with
    | none => rfl
    | some needed =>
        obtain ⟨-, rfl⟩ := checkedAdd_eq_some_iff.mp sum
        simp only [Option.bind_some, Option.map_some]
        split
        · rfl
        · rename_i within
          have needed := grows.mono (Nat.not_lt.mp within)
          have shifted : GrowsTo slotSize
              ((List.replicate (q.confirmedNonce - nonce) (none : Option PendingTx)).length +
                q.slots.length) := by
            rw [List.length_replicate]
            exact needed
          rw [checkedReplicate_of_growsTo (needed.mono (Nat.le_add_right _ _)), Option.bind_some,
            checkedAppend_of_growsTo shifted]
          rfl
  · rfl

theorem placeChecked_eq (above : q.confirmedNonce ≤ tx.nonce) (fits : tx.nonce + 1 < u64Size)
    (grows : GrowsTo slotSize (tx.nonce - q.confirmedNonce + 1)) :
    q.placeChecked tx = some (q.place tx) := by
  have small : tx.nonce - q.confirmedNonce + 1 < u64Size := by omega
  have padded : ∀ cells : List (Option PendingTx),
      tx.nonce - q.confirmedNonce <
        (cells.rightpad (tx.nonce - q.confirmedNonce + 1) none).length := by
    intro cells
    rw [List.length_rightpad]
    exact lt_max_of_lt_left (Nat.lt_succ_self _)
  have resized : (if q.slots.length ≤ tx.nonce - q.confirmedNonce then
      (checkedAdd u64Size (tx.nonce - q.confirmedNonce) 1).bind
        (checkedResize slotSize q.slots · none)
      else some q.slots) =
        some (q.slots.rightpad (tx.nonce - q.confirmedNonce + 1) none) := by
    split
    · rw [checkedAdd_of_lt small, Option.bind_some, checkedResize_of_growsTo grows]
    · rename_i inside
      rw [List.rightpad, Nat.sub_eq_zero_of_le (by omega), List.replicate_zero, List.append_nil]
  simp only [placeChecked, checkedSub_of_le above, resized, checkedSet_of_lt (padded q.slots),
    Option.bind_eq_bind, Option.bind_some]
  rfl

theorem confirmToChecked_eq : q.confirmToChecked nonce = some (q.confirmTo nonce) := by
  simp only [confirmToChecked, confirmTo, checkedSub_of_le (le_max_left q.confirmedNonce nonce),
    Option.bind_eq_bind, Option.bind_some]
  split
  · split
    · rename_i inside
      rw [checkedDrain_of_le inside.le]
      rfl
    · rfl
  · rfl

theorem txAtChecked_eq : q.txAtChecked n = some (q.txAt n) := by
  unfold txAtChecked txAt cellAt
  split
  · rename_i above
    rw [checkedSub_of_le above]
    rfl
  · rfl

end AccountQueue

namespace MempoolInner

variable {s s' : MempoolInner} {tx : PendingTx} {key : PriorityKey} {block : BlockUpdate}
variable {a : Address} {q : AccountQueue} {n : ℕ}

/-! ## Insertion, checked -/

def evictChecked (s : MempoolInner) (worst : PriorityKey) : Option MempoolInner :=
  let popped := { s with priorityQueue := s.priorityQueue.erase worst }
  match s.accountQueues.lookup worst.addr with
  | none => some popped
  | some q => do
      let nonceOffset ← checkedSub worst.nonce q.confirmedNonce
      match q.slots[nonceOffset]? with
      | some (some evictedTx) =>
          let slots ← checkedSet q.slots nonceOffset none
          return { popped.setQueue worst.addr { q with slots } with
            baseFeeEligibility := s.baseFeeEligibility.erase
              (evictedTx.maxFeePerGas, worst.addr, worst.nonce) }
      | _ => return popped

def trackChecked (s : MempoolInner) (tx : PendingTx) : Option MempoolInner := do
  match ← (s.queueFor tx).rebaseChecked s.config.perAccountCapacity tx.nonce with
  | none => return s.setQueue tx.sender (s.queueFor tx)
  | some q =>
      let nonceOffset ← checkedSub tx.nonce q.confirmedNonce
      if s.config.perAccountCapacity ≤ nonceOffset then return s.setQueue tx.sender q
      let placed ← q.placeChecked tx
      return { s.setQueue tx.sender placed with
        baseFeeEligibility := Insert.insert tx.eligibilityKey s.baseFeeEligibility
        priorityQueue := Insert.insert (tx.priorityKey s.currentBaseFee) s.priorityQueue }

def makeRoomChecked (s : MempoolInner) (tx : PendingTx) : Option (Option MempoolInner) :=
  if s.IsFull then
    match firstKey s.priorityQueue with
    | none => some none
    | some worst =>
        if s.effectivePriorityFee tx ≤ worst.fee then some none
        else (s.evictChecked worst).map some
  else some (some s)

def insertChecked (s : MempoolInner) (tx : PendingTx) : Option MempoolInner :=
  (s.makeRoomChecked tx).bind fun
    | none => some s
    | some s => s.trackChecked tx

/-! ## Blocks, checked -/

def findTxChecked (s : MempoolInner) (addr : Address) (nonce : ℕ) : Option (Option PendingTx) :=
  match s.accountQueues.lookup addr with
  | none => some none
  | some q => q.txAtChecked nonce

def knownGasUsedChecked (s : MempoolInner) (included : List PendingTx) : Option ℕ :=
  included.foldlM (fun gas tx => do
    let found ← s.findTxChecked tx.sender tx.nonce
    if found.isSome then checkedAdd u64Size gas tx.gasLimit else some gas) 0

def removeIncludedChecked (s : MempoolInner) (txInBlock : PendingTx) : Option MempoolInner :=
  match s.accountQueues.lookup txInBlock.sender with
  | none => some s
  | some q =>
      if q.confirmedNonce ≤ txInBlock.nonce then do
        let nonceOffset ← checkedSub txInBlock.nonce q.confirmedNonce
        if nonceOffset < q.slots.length then
          -- `slots[nonce_offset].take()`
          let slot ← q.slots[nonceOffset]?
          let slots ← checkedSet q.slots nonceOffset none
          match slot with
          | none => return s
          | some mempoolTx =>
              return { s.setQueue txInBlock.sender { q with slots } with
                baseFeeEligibility := s.baseFeeEligibility.erase mempoolTx.eligibilityKey
                priorityQueue := s.priorityQueue.erase (mempoolTx.priorityKey s.currentBaseFee) }
        else some s
      else some s

def confirmIncludedChecked (s : MempoolInner) (tx : PendingTx) : Option MempoolInner :=
  match s.accountQueues.lookup tx.sender with
  | none => some s
  | some q => do
      let next ← checkedAdd u64Size tx.nonce 1
      let confirmed ← q.confirmToChecked next
      return s.setQueue tx.sender confirmed

def applyBlockChecked (s : MempoolInner) (block : BlockUpdate) : Option MempoolInner := do
  let knownGas ← s.knownGasUsedChecked block.includedTxs
  let removed ←
    runs removeIncludedChecked (s.updatePrivateFlow block knownGas) block.includedTxs
  let confirmed ← runs confirmIncludedChecked removed block.includedTxs
  return confirmed.reprice block.newBaseFee

/-! ## The checks that a branch makes safe -/

theorem evictChecked_eq : s.evictChecked key = s.evict key := by
  unfold evictChecked evict
  cases s.accountQueues.lookup key.addr with
  | none => rfl
  | some q =>
      simp only
      cases offset : checkedSub key.nonce q.confirmedNonce with
      | none => rfl
      | some i =>
          obtain ⟨-, rfl⟩ := checkedSub_eq_some_iff.mp offset
          simp only [Option.bind_eq_bind, Option.bind_some, Option.map_some]
          cases found : q.slots[key.nonce - q.confirmedNonce]? with
          | none => rfl
          | some slot =>
              have inside := (List.getElem?_eq_some_iff.mp found).1
              cases slot with
              | none => rfl
              | some victim =>
                  simp only [checkedSet_of_lt inside, Option.bind_some]
                  rfl

theorem trackChecked_eq (slots : s.config.SlotsFit) (fits : tx.nonce + 1 < u64Size) :
    s.trackChecked tx = s.track tx := by
  unfold trackChecked track
  rw [AccountQueue.rebaseChecked_eq (slots.growsTo le_rfl)]
  cases rebased : (s.queueFor tx).rebase s.config.perAccountCapacity tx.nonce with
  | none => rfl
  | some result =>
      rcases AccountQueue.rebase_cases rebased with ⟨rfl, -⟩ | ⟨rfl, -⟩
      · rfl
      · have above : ((s.queueFor tx).lowerTo tx.nonce).confirmedNonce ≤ tx.nonce :=
          Nat.min_le_right _ _
        simp only [checkedSub_of_le above, Option.bind_eq_bind, Option.bind_some, Option.map_some]
        split
        · rfl
        · rename_i within
          have grows := slots.growsTo (Nat.succ_le_of_lt (Nat.not_le.mp within))
          rw [AccountQueue.placeChecked_eq above fits grows]
          rfl

theorem insertChecked_eq (slots : s.config.SlotsFit) (fits : tx.nonce + 1 < u64Size) :
    s.insertChecked tx = s.insert tx := by
  have room : s.makeRoomChecked tx = s.makeRoom tx := by
    unfold makeRoomChecked makeRoom
    cases firstKey s.priorityQueue with
    | none => rfl
    | some worst => simp only [evictChecked_eq]
  rw [insertChecked, insert, room]
  cases made : s.makeRoom tx with
  | none => rfl
  | some result =>
      cases result with
      | none => rfl
      | some emptied =>
          have kept : emptied.config = s.config := by
            cases makeRoom_spec made with
            | roomy => rfl
            | evicting _ _ _ evicted => cases evicted <;> rfl
          rw [← kept] at slots
          exact trackChecked_eq slots fits

theorem findTxChecked_eq : s.findTxChecked a n = some (s.findTxByAddrAndNonce a n) := by
  unfold findTxChecked findTxByAddrAndNonce
  cases s.accountQueues.lookup a with
  | none => rfl
  | some q => exact AccountQueue.txAtChecked_eq

theorem knownGasUsedChecked_eq (included : List PendingTx) :
    s.knownGasUsedChecked included = s.knownGasUsed included := by
  simp only [knownGasUsedChecked, findTxChecked_eq, Option.bind_eq_bind, Option.bind_some]
  rfl

theorem removeIncludedChecked_eq : s.removeIncludedChecked tx = some (s.removeIncluded tx) := by
  unfold removeIncludedChecked removeIncluded AccountQueue.txAt cellAt
  cases s.accountQueues.lookup tx.sender with
  | none => rfl
  | some q =>
      simp only
      split
      · rename_i above
        rw [checkedSub_of_le above, Option.bind_eq_bind, Option.bind_some]
        split
        · rename_i inside
          simp only [List.getElem?_eq_getElem inside, checkedSet_of_lt inside, Option.join_some,
            Option.bind_eq_bind, Option.bind_some]
          cases q.slots[tx.nonce - q.confirmedNonce] <;> rfl
        · rename_i outside
          rw [List.getElem?_eq_none (Nat.not_lt.mp outside)]
          rfl
      · rfl

theorem runs_removeIncludedChecked (txs : List PendingTx) :
    runs removeIncludedChecked s txs = some (txs.foldl removeIncluded s) := by
  induction txs generalizing s with
  | nil => rfl
  | cons tx rest ih => rw [runs, removeIncludedChecked_eq, Option.bind_some, ih, List.foldl_cons]

theorem confirmIncludedChecked_eq : s.confirmIncludedChecked tx = s.confirmIncluded tx := by
  unfold confirmIncludedChecked confirmIncluded
  simp only [AccountQueue.confirmToChecked_eq]
  cases s.accountQueues.lookup tx.sender with
  | none => rfl
  | some q => cases checkedAdd u64Size tx.nonce 1 <;> rfl

theorem applyBlockChecked_eq : s.applyBlockChecked block = s.applyBlock block := by
  have confirms : confirmIncludedChecked = confirmIncluded :=
    funext fun s => funext fun tx => confirmIncludedChecked_eq
  simp only [applyBlockChecked, applyBlock, knownGasUsedChecked_eq, runs_removeIncludedChecked,
    confirms, Option.bind_eq_bind, Option.bind_some]

end MempoolInner

/-! ## The checks that rest on an invariant -/

/-- The nonce is one a transaction can have: `u64::MAX` is not (EIP-2681). -/
def PendingTx.NonceFits (tx : PendingTx) : Prop := tx.nonce + 1 < u64Size

instance : DecidablePred PendingTx.NonceFits := fun tx =>
  inferInstanceAs (Decidable (tx.nonce + 1 < u64Size))

namespace MempoolEvent

def txs : MempoolEvent → List PendingTx
  | .pendingTransaction tx => [tx]
  | .newBlock block => block.includedTxs

/-- Every nonce in the event fits. -/
def NoncesFit (event : MempoolEvent) : Prop := ∀ tx ∈ event.txs, tx.NonceFits

/-- A block's included gas limits can be summed up. -/
def GasFits : MempoolEvent → Prop
  | .pendingTransaction _ => True
  | .newBlock block => (block.includedTxs.map (·.gasLimit)).sum < u64Size

instance : DecidablePred NoncesFit := fun event =>
  inferInstanceAs (Decidable (∀ tx ∈ event.txs, tx.NonceFits))

theorem noncesFit_pending {tx : PendingTx} (fits : tx.NonceFits) :
    (MempoolEvent.pendingTransaction tx).NoncesFit :=
  fun _ member => List.mem_singleton.mp member ▸ fits

instance : DecidablePred GasFits
  | .pendingTransaction _ => inferInstanceAs (Decidable True)
  | .newBlock block =>
      inferInstanceAs (Decidable ((block.includedTxs.map (·.gasLimit)).sum < u64Size))

end MempoolEvent

namespace AccountQueue

variable {q q' : AccountQueue} {tx : PendingTx} {nonce : ℕ}

/-- The first nonce behind the account's window. -/
def windowEnd (q : AccountQueue) : ℕ := q.confirmedNonce + q.slots.length

theorem windowEnd_vacate : (q.vacate nonce).windowEnd = q.windowEnd := by
  rw [windowEnd, length_vacate]
  rfl

theorem windowEnd_accept : (q.accept tx).windowEnd = max (tx.nonce + 1) q.windowEnd := by
  rw [windowEnd, windowEnd, confirmedNonce_accept, length_accept]
  omega

theorem windowEnd_confirmTo : (q.confirmTo nonce).windowEnd = max nonce q.windowEnd := by
  rw [windowEnd, windowEnd, slots_confirmTo, List.length_drop]
  change max q.confirmedNonce nonce + _ = _
  omega

/-- Slots are determined by where they start, where they end and what they hold. -/
theorem eq_of_view (floors : q.confirmedNonce = q'.confirmedNonce)
    (ends : q.windowEnd = q'.windowEnd) (views : ∀ n, q.txAt n = q'.txAt n) : q = q' := by
  have length : q.slots.length = q'.slots.length := by
    unfold windowEnd at ends
    omega
  have slots : q.slots = q'.slots := by
    refine List.ext_getElem length fun i inside inside' => ?_
    have shown := views (q.confirmedNonce + i)
    have start : q.confirmedNonce + i = q'.confirmedNonce + i := by rw [floors]
    rw [txAt_confirmedNonce_add, start, txAt_confirmedNonce_add, List.getElem?_eq_getElem inside,
      List.getElem?_eq_getElem inside', Option.join_some, Option.join_some] at shown
    exact shown
  cases q
  cases q'
  exact congrArg₂ mk floors slots

end AccountQueue

namespace MempoolInner

variable {s s' : MempoolInner} {tx : PendingTx} {key : PriorityKey} {block : BlockUpdate}
variable {a : Address} {q : AccountQueue}

/-- No account's window goes up to `u64::MAX`. -/
def Narrow (s : MempoolInner) : Prop :=
  ∀ a q, s.accountQueues.lookup a = some q → q.windowEnd < u64Size

theorem narrow_setQueue (narrow : s.Narrow) (small : q.windowEnd < u64Size) :
    (s.setQueue a q).Narrow := by
  intro b q' known
  rw [lookup_setQueue] at known
  split at known
  · obtain rfl := Option.some.inj known
    exact small
  · exact narrow b q' known

theorem windowEnd_queueFor (narrow : s.Narrow) (fits : tx.NonceFits) :
    (s.queueFor tx).windowEnd < u64Size := by
  cases known : s.accountQueues.lookup tx.sender with
  | none =>
      simp only [queueFor, known, Option.getD_none]
      exact Nat.lt_of_succ_lt fits
  | some q =>
      rw [queueFor_of_known known]
      exact narrow _ q known

theorem narrow_evicted (narrow : s.Narrow) (evicted : Evicted s key s') : s'.Narrow := by
  cases evicted with
  | stale => exact narrow
  | @held q victim known found =>
      apply narrow_setQueue narrow
      rw [AccountQueue.windowEnd_vacate]
      exact narrow _ q known

theorem narrow_tracked (narrow : s.Narrow) (fits : tx.NonceFits) (tracked : Tracked s tx s') :
    s'.Narrow := by
  have small := windowEnd_queueFor narrow fits
  cases tracked with
  | unfit => exact narrow_setQueue narrow small
  | accepted =>
      apply narrow_setQueue narrow
      rw [AccountQueue.windowEnd_accept]
      exact max_lt fits small

theorem narrow_inserted (narrow : s.Narrow) (fits : tx.NonceFits)
    (inserted : s.insert tx = some s') : s'.Narrow := by
  cases insert_spec inserted with
  | turnedAway => exact narrow
  | roomy _ tracked => exact narrow_tracked narrow fits tracked
  | evicting _ _ _ evicted tracked =>
      exact narrow_tracked (narrow_evicted narrow evicted) fits tracked

theorem narrow_removed (narrow : s.Narrow) (removed : Removed s tx s') : s'.Narrow := by
  cases removed with
  | untracked => exact narrow
  | @tracked q mempoolTx known found =>
      apply narrow_setQueue narrow
      rw [AccountQueue.windowEnd_vacate]
      exact narrow _ q known

theorem narrow_confirmed (narrow : s.Narrow) (fits : tx.NonceFits)
    (confirmed : Confirmed s tx s') : s'.Narrow := by
  cases confirmed with
  | unknown => exact narrow
  | @known q known =>
      apply narrow_setQueue narrow
      rw [AccountQueue.windowEnd_confirmTo]
      exact max_lt fits (narrow _ q known)

theorem narrow_applied (narrow : s.Narrow) (fits : ∀ tx ∈ block.includedTxs, tx.NonceFits)
    (applied : s.applyBlock block = some s') : s'.Narrow := by
  obtain ⟨gas, confirmed, ran, rfl⟩ := applyBlock_spec applied
  change confirmed.Narrow
  have removed : (block.includedTxs.foldl removeIncluded (s.updatePrivateFlow block gas)).Narrow :=
    List.foldlRecOn (motive := Narrow) _ _ narrow fun s held tx _ =>
      narrow_removed held (removeIncluded_spec s tx)
  have drained : ∀ s tx s', Narrow s → tx.NonceFits → s.confirmIncluded tx = some s' → s'.Narrow :=
    fun s tx s' held small taken => narrow_confirmed held small (confirmIncluded_spec taken)
  exact runs_invariant_of_forall drained removed fits ran

/-! ## Every operation returns -/

theorem exists_track (narrow : s.Narrow) (fits : tx.NonceFits) : ∃ s', s.track tx = some s' := by
  have small := windowEnd_queueFor narrow fits
  unfold track AccountQueue.rebase
  split
  · have room : (s.queueFor tx).confirmedNonce - tx.nonce + (s.queueFor tx).slots.length <
        u64Size := by
      unfold AccountQueue.windowEnd at small
      omega
    rw [checkedAdd_of_lt room]
    exact ⟨_, rfl⟩
  · exact ⟨_, rfl⟩

theorem exists_insert (inv : RepInv s) (narrow : s.Narrow) (fits : tx.NonceFits) :
    ∃ s', s.insert tx = some s' := by
  by_cases full : s.IsFull
  · cases first : firstKey s.priorityQueue with
    | none =>
        have away : s.makeRoom tx = some none := by simp only [makeRoom, if_pos full, first]
        exact ⟨s, by rw [insert, away]; rfl⟩
    | some worst =>
        rcases Nat.lt_or_ge worst.fee (s.effectivePriorityFee tx) with outbids | cheap
        · obtain ⟨room, evicted⟩ := evict_isSome inv (firstKey_mem first)
          have made : s.makeRoom tx = some (some room) := by
            simp only [makeRoom, if_pos full, first, if_neg (Nat.not_le.mpr outbids), evicted,
              Option.map_some]
          obtain ⟨s', tracked⟩ := exists_track (narrow_evicted narrow (evict_spec evicted)) fits
          exact ⟨s', by rw [insert, made]; exact tracked⟩
        · have away : s.makeRoom tx = some none := by
            simp only [makeRoom, if_pos full, first, if_pos cheap]
          exact ⟨s, by rw [insert, away]; rfl⟩
  · have made : s.makeRoom tx = some (some s) := if_neg full
    obtain ⟨s', tracked⟩ := exists_track narrow fits
    exact ⟨s', by rw [insert, made]; exact tracked⟩

theorem exists_confirmations {included : List PendingTx}
    (fits : ∀ tx ∈ included, tx.NonceFits) :
    ∃ s', runs confirmIncluded s included = some s' := by
  have goes : ∀ (s : MempoolInner) (tx : PendingTx), True → tx.NonceFits →
      ∃ s', s.confirmIncluded tx = some s' ∧ True := by
    intro s tx _ small
    unfold confirmIncluded
    rw [checkedAdd_of_lt small]
    split
    · exact ⟨_, rfl, trivial⟩
    · exact ⟨_, rfl, trivial⟩
  obtain ⟨s', ran, -⟩ := exists_run goes trivial fits
  exact ⟨s', ran⟩

/-- The gas limits of the included transactions whose position is tracked. -/
def knownGasLimits (s : MempoolInner) (included : List PendingTx) : List ℕ :=
  (included.filter fun tx => (s.findTxByAddrAndNonce tx.sender tx.nonce).isSome).map (·.gasLimit)

theorem exists_knownGasUsed_iff {included : List PendingTx} :
    (∃ gas, s.knownGasUsed included = some gas) ↔
      (s.knownGasLimits included).sum < u64Size := by
  have summed : ∀ start, start < u64Size → ((∃ gas, included.foldlM (fun gas tx =>
      if (s.findTxByAddrAndNonce tx.sender tx.nonce).isSome then
        checkedAdd u64Size gas tx.gasLimit
      else some gas) start = some gas) ↔ start + (s.knownGasLimits included).sum < u64Size) := by
    induction included with
    | nil => exact fun start small => ⟨fun _ => small, fun _ => ⟨start, rfl⟩⟩
    | cons tx rest ih =>
        intro start small
        rw [List.foldlM_cons, knownGasLimits, List.filter_cons]
        split
        · rw [List.map_cons, List.sum_cons, ← Nat.add_assoc]
          by_cases more : start + tx.gasLimit < u64Size
          · rw [checkedAdd_of_lt more]
            exact ih (start + tx.gasLimit) more
          · simp only [checkedAdd, if_neg more, Option.bind_eq_bind, Option.bind_none,
              reduceCtorEq, exists_false, false_iff]
            omega
        · exact ih start small
  have all := summed 0 (by decide)
  rw [Nat.zero_add] at all
  exact all

/-- With nonces that fit, the only sum of a block that can overflow is the known gas. -/
theorem exists_applyBlock_iff (fits : ∀ tx ∈ block.includedTxs, tx.NonceFits) :
    (∃ s', s.applyBlock block = some s') ↔
      (s.knownGasLimits block.includedTxs).sum < u64Size := by
  rw [← exists_knownGasUsed_iff]
  constructor
  · intro applied
    obtain ⟨s', applied⟩ := applied
    obtain ⟨gas, summed, -⟩ := Option.bind_eq_some_iff.mp applied
    exact ⟨gas, summed⟩
  · intro summed
    obtain ⟨gas, summed⟩ := summed
    obtain ⟨confirmed, ran⟩ := exists_confirmations fits
      (s := block.includedTxs.foldl removeIncluded (s.updatePrivateFlow block gas))
    refine ⟨confirmed.reprice block.newBaseFee, ?_⟩
    simp only [applyBlock, summed, ran, Option.bind_eq_bind, Option.bind_some]
    rfl

end MempoolInner

namespace MempoolTracker

open MempoolInner

variable {config : TrackerConfig} {s s' : MempoolInner} {event : MempoolEvent}

def stepChecked (s : MempoolInner) : MempoolEvent → Option MempoolInner
  | .pendingTransaction tx => s.insertChecked tx
  | .newBlock block => s.applyBlockChecked block

def fromChannelChecked (config : TrackerConfig) (initialTxs : List PendingTx) :
    Option MempoolInner :=
  runs insertChecked (.new config) initialTxs

/-- The states of `config`'s tracker that no nonce of `u64::MAX` has led to. -/
def ReachableWithin (config : TrackerConfig) (s : MempoolInner) : Prop :=
  ∃ initialTxs start events, (∀ tx ∈ initialTxs, tx.NonceFits) ∧
    (∀ event ∈ events, event.NoncesFit) ∧ fromChannel config initialTxs = some start ∧
    runs step start events = some s

theorem narrow_new (config : TrackerConfig) : (MempoolInner.new config).Narrow := by
  intro a q known
  cases known

theorem narrow_step (narrow : s.Narrow) (fits : event.NoncesFit)
    (stepped : step s event = some s') : s'.Narrow := by
  cases event with
  | pendingTransaction tx =>
      exact narrow_inserted narrow (fits tx (List.mem_singleton_self tx)) stepped
  | newBlock block => exact narrow_applied narrow fits stepped

theorem ReachableWithin.reachable (reached : ReachableWithin config s) : Reachable config s := by
  obtain ⟨initialTxs, start, events, -, -, opened, ran⟩ := reached
  exact ⟨initialTxs, start, events, opened, ran⟩

theorem ReachableWithin.narrow (reached : ReachableWithin config s) : s.Narrow := by
  obtain ⟨initialTxs, start, events, initial, later, opened, ran⟩ := reached
  have begun : start.Narrow :=
    runs_invariant_of_forall (fun _ _ _ => narrow_inserted) (narrow_new config) initial opened
  exact runs_invariant_of_forall (fun _ _ _ => narrow_step) begun later ran

theorem stepChecked_eq (slots : s.config.SlotsFit) (fits : event.NoncesFit) :
    stepChecked s event = step s event := by
  cases event with
  | pendingTransaction tx => exact insertChecked_eq slots (fits tx (List.mem_singleton_self tx))
  | newBlock block => exact applyBlockChecked_eq

theorem exists_step (inv : RepInv s) (narrow : s.Narrow) (nonces : event.NoncesFit)
    (gas : event.GasFits) : ∃ s', step s event = some s' := by
  cases event with
  | pendingTransaction tx => exact exists_insert inv narrow (nonces tx (List.mem_singleton_self tx))
  | newBlock block =>
      have known : (s.knownGasLimits block.includedTxs).sum < u64Size :=
        ((List.filter_sublist.map _).sum_le_sum fun _ _ => Nat.zero_le _).trans_lt gas
      exact (exists_applyBlock_iff nonces).mpr known

/-- What no event makes `config`'s tracker lose. -/
structure Steady (config : TrackerConfig) (s : MempoolInner) : Prop where
  inv : RepInv s
  narrow : s.Narrow
  config : s.config = config

namespace Steady

theorem new (config : TrackerConfig) : Steady config (.new config) where
  inv := RepInv.new config
  narrow := narrow_new config
  config := rfl

theorem stepped (steady : Steady config s) (fits : event.NoncesFit)
    (stepped : step s event = some s') : Steady config s' := by
  have narrow := narrow_step steady.narrow fits stepped
  cases event with
  | pendingTransaction tx =>
      have kept := RepInv.config_inserted stepped
      exact ⟨steady.inv.inserted stepped, narrow, kept.trans steady.config⟩
  | newBlock block =>
      have kept := RepInv.config_applied stepped
      exact ⟨steady.inv.applied stepped, narrow, kept.trans steady.config⟩

theorem stepChecked_eq (steady : Steady config s) (slots : config.SlotsFit)
    (fits : event.NoncesFit) : stepChecked s event = step s event := by
  apply MempoolTracker.stepChecked_eq _ fits
  rw [steady.config]
  exact slots

/-- No check fails. -/
theorem goes_on (steady : Steady config s) (slots : config.SlotsFit) (nonces : event.NoncesFit)
    (gas : event.GasFits) : ∃ s', stepChecked s event = some s' ∧ Steady config s' := by
  obtain ⟨s', stepped⟩ := exists_step steady.inv steady.narrow nonces gas
  exact ⟨s', (steady.stepChecked_eq slots nonces).trans stepped, steady.stepped nonces stepped⟩

end Steady

/-- Neither the initial transactions nor any sequence of events makes a check fail, nor does
    classifying what is tracked; and no account needs more slots than it is configured for,
    which have to be fewer than `2 ^ 55`. -/
theorem never_panics (config : TrackerConfig) (slots : config.SlotsFit)
    {initialTxs : List PendingTx} {events : List MempoolEvent}
    (initial : ∀ tx ∈ initialTxs, tx.NonceFits) (nonces : ∀ event ∈ events, event.NoncesFit)
    (gas : ∀ event ∈ events, event.GasFits) :
    ∃ start s, fromChannelChecked config initialTxs = some start ∧
      runs stepChecked start events = some s ∧
      (∀ a n tx, s.findTxByAddrAndNonce a n = some tx →
        ∃ classification, s.classifyTransaction tx = some classification) ∧
      ∀ a q, s.accountQueues.lookup a = some q → q.slots.length ≤ s.config.perAccountCapacity := by
  have inserts : ∀ (s : MempoolInner) (tx : PendingTx), Steady config s → tx.NonceFits →
      ∃ s', s.insertChecked tx = some s' ∧ Steady config s' := by
    intro s tx steady fits
    exact steady.goes_on slots (MempoolEvent.noncesFit_pending fits) trivial
  have steps : ∀ (s : MempoolInner) (event : MempoolEvent), Steady config s →
      event.NoncesFit ∧ event.GasFits → ∃ s', stepChecked s event = some s' ∧ Steady config s' :=
    fun s event steady ⟨fits, sums⟩ => steady.goes_on slots fits sums
  obtain ⟨start, opened, begun⟩ := exists_run inserts (Steady.new config) initial
  obtain ⟨s, ran, steady⟩ :=
    exists_run steps begun fun event member => ⟨nonces event member, gas event member⟩
  refine ⟨start, s, opened, ran, fun a n tx found => ?_, fun a q => steady.inv.consistent.bounded⟩
  obtain ⟨rfl, rfl⟩ := steady.inv.placed found
  exact classified_of_findTx found

/-- A late announcement below the floor, an eviction and a block with an unknown sender. -/
theorem never_panics_on_mixed_events :
    ∃ start s, fromChannelChecked (sampleConfig 2) [sampleTx 1 5 20 5] = some start ∧
      runs stepChecked start [.pendingTransaction (sampleTx 1 3 20 6),
        .pendingTransaction (sampleTx 2 0 20 9),
        .newBlock ⟨[sampleTx 1 4 20 5, sampleTx 9 7 20 5], 2, 0, 0⟩] = some s ∧
      (∀ a n tx, s.findTxByAddrAndNonce a n = some tx →
        ∃ classification, s.classifyTransaction tx = some classification) ∧
      ∀ a q, s.accountQueues.lookup a = some q → q.slots.length ≤ s.config.perAccountCapacity :=
  never_panics (sampleConfig 2) (by decide) (by decide) (by decide) (by decide)

/-- An account without a bound gets a nonce so far from its first one that the slots between
    them are more than a vector can hold. -/
theorem far_nonce_panics :
    let config := { sampleConfig 2 with perAccountCapacity := u64Size - 1 }
    let near := sampleTx 1 0 20 5
    let far : MempoolEvent := .pendingTransaction (sampleTx 1 (2 ^ 60) 20 5)
    near.NonceFits ∧ far.NoncesFit ∧ far.GasFits ∧
      ∃ start, fromChannelChecked config [near] = some start ∧ stepChecked start far = none := by
  intro config near far
  refine ⟨by decide, by decide, by decide, ?_⟩
  have shown : (fromChannelChecked config [near]).map (fun s => (stepChecked s far).isNone) =
      some true := by decide +kernel
  obtain ⟨start, opened, stuck⟩ := Option.map_eq_some_iff.mp shown
  exact ⟨start, opened, Option.isNone_iff_eq_none.mp stuck⟩

end MempoolTracker

end Bulkmail.Mempool
