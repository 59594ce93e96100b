import Bulkmail.Mempool.Capacity

/-! # Queries through a handle

`MempoolHandle` of `mempooloracle/src/lib.rs`: what each query computes from the state
its read guard shows.  A search by id walks the account map in an order of the map's own
choosing, which the caller supplies.  A result of `none` is a panic, the inner `none` is
the source's.
-/

namespace Bulkmail.Mempool

open Library

namespace MempoolInner

/-- An order in which the map may yield its values. -/
def Yields (s : MempoolInner) (values : List AccountQueue) : Prop :=
  (values : Multiset AccountQueue) = s.accountQueues.entries.map Sigma.snd

instance (s : MempoolInner) (values : List AccountQueue) : Decidable (s.Yields values) :=
  inferInstanceAs (Decidable (_ = _))

variable (s : MempoolInner) (values : List AccountQueue) (id : TxId)

def classification : Option (Option TxClassification) :=
  match findTxById values id with
  | none => some none
  | some tx => (s.classifyTransaction tx).map some

def isMarketable : Option (Option Bool) :=
  (s.classification values id).map fun found => found.map (· = .marketable)

/-- One round of the loop in `gas_ahead`. -/
def addGas (gasAhead : Option ℕ) (key : PriorityKey) : Option ℕ :=
  match s.findTxByAddrAndNonce key.addr key.nonce with
  | some txAhead => gasAhead.bind fun gas => checkedAdd u64Size gas txAhead.gasLimit
  | none => gasAhead

instance : RightCommutative s.addGas where
  right_comm gasAhead key key' := by
    unfold addGas
    cases gasAhead with
    | none =>
        cases s.findTxByAddrAndNonce key.addr key.nonce <;>
          cases s.findTxByAddrAndNonce key'.addr key'.nonce <;> rfl
    | some gas =>
        cases s.findTxByAddrAndNonce key.addr key.nonce with
        | none => cases s.findTxByAddrAndNonce key'.addr key'.nonce <;> rfl
        | some tx =>
            cases s.findTxByAddrAndNonce key'.addr key'.nonce with
            | none => rfl
            | some tx' => exact checkedAdd_right_comm u64Size gas tx.gasLimit tx'.gasLimit

/-- The loop of `gas_ahead` over the keys in front of `keyForTx`. -/
def gasBefore (keyForTx : PriorityKey) : Option ℕ :=
  (s.priorityQueue.filter (· < keyForTx)).val.foldl s.addGas (some 0)

def gasAhead : Option (Option ℕ) :=
  match findTxById values id with
  | none => some none
  | some tx =>
      (s.classifyTransaction tx).bind fun classified =>
        if classified ≠ .marketable then some none
        else (s.gasBefore (tx.priorityKey s.currentBaseFee)).map some

def usableCapacity : ℕ :=
  (s.lastBlockGasLimit.toFloat * (1.0 - s.privateFlowRatio)).toUInt64.toNat

def blocksToConfirm (tx : PendingTx) (gasAhead : ℕ) : ℕ :=
  if s.usableCapacity = 0 then u64Size - 1
  else saturatingAdd u64Size gasAhead tx.gasLimit / s.usableCapacity

def estimatedBlocksToConfirm : Option (Option ℕ) :=
  match findTxById values id with
  | none => some none
  | some tx => (s.gasAhead values id).map fun gasAhead => gasAhead.map (s.blocksToConfirm tx)

/-! ## The tracked transactions -/

/-- Everything in the slots. -/
def trackedTxs : Finset PendingTx :=
  s.accountQueues.keys.biUnion fun a => (s.accountQueues.lookup a).elim ∅ fun q =>
    q.slots.reduceOption.toFinset

def TracksId : Prop := ∃ tx ∈ s.trackedTxs, tx.id = id

instance : Decidable (s.TracksId id) := inferInstanceAs (Decidable (∃ tx ∈ _, _))

variable {s values id} {tx : PendingTx}

theorem mem_trackedTxs : tx ∈ s.trackedTxs ↔ ∃ a n, s.findTxByAddrAndNonce a n = some tx := by
  simp only [trackedTxs, mem_biUnion_values, List.mem_toFinset, mem_slots_iff, findTx_eq_some_iff]
  constructor
  · intro listed
    obtain ⟨a, q, known, n, held⟩ := listed
    exact ⟨a, n, q, known, held⟩
  · intro found
    obtain ⟨a, n, q, known, held⟩ := found
    exact ⟨a, q, known, n, held⟩

/-- A tracked transaction sits where its own fields say. -/
theorem findTx_of_mem_trackedTxs (inv : RepInv s) (tracked : tx ∈ s.trackedTxs) :
    s.findTxByAddrAndNonce tx.sender tx.nonce = some tx := by
  obtain ⟨a, n, found⟩ := mem_trackedTxs.mp tracked
  obtain ⟨q, known, held⟩ := findTx_eq_some_iff.mp found
  obtain ⟨rfl, rfl⟩ := inv.consistent.placed known held
  exact found

theorem exists_yields (s : MempoolInner) : ∃ values, s.Yields values :=
  Quot.exists_rep (s.accountQueues.entries.map Sigma.snd)

theorem mem_values_iff (yields : s.Yields values) {q : AccountQueue} :
    q ∈ values ↔ ∃ a, s.accountQueues.lookup a = some q := by
  have listed : q ∈ values ↔ q ∈ s.accountQueues.entries.map Sigma.snd := by
    rw [← Multiset.mem_coe, yields]
  rw [listed, Multiset.mem_map]
  constructor
  · intro entry
    obtain ⟨⟨a, q'⟩, inMap, rfl⟩ := entry
    exact ⟨a, Finmap.mem_lookup_iff.mpr inMap⟩
  · intro known
    obtain ⟨a, known⟩ := known
    exact ⟨⟨a, q⟩, Finmap.mem_lookup_iff.mp known, rfl⟩

theorem findTxById_eq_some (yields : s.Yields values) (found : findTxById values id = some tx) :
    tx ∈ s.trackedTxs ∧ tx.id = id := by
  obtain ⟨q, member, inQueue⟩ := List.exists_of_findSome?_eq_some found
  obtain ⟨slot, inSlots, filtered⟩ := List.exists_of_findSome?_eq_some inQueue
  obtain ⟨rfl, same⟩ := Option.filter_eq_some_iff.mp filtered
  obtain ⟨a, known⟩ := (mem_values_iff yields).mp member
  obtain ⟨n, held⟩ := mem_slots_iff.mp (List.reduceOption_mem_iff.mpr inSlots)
  exact ⟨mem_trackedTxs.mpr ⟨a, n, (findTx_eq known).trans held⟩, by simpa using same⟩

theorem findTxById_eq_none (yields : s.Yields values) (missing : findTxById values id = none) :
    ¬ s.TracksId id := by
  intro tracks
  obtain ⟨tx, tracked, same⟩ := tracks
  obtain ⟨a, n, found⟩ := mem_trackedTxs.mp tracked
  obtain ⟨q, known, held⟩ := findTx_eq_some_iff.mp found
  have inSlots := List.reduceOption_mem_iff.mp (mem_slots_iff.mpr ⟨n, held⟩)
  have inQueue := List.findSome?_eq_none_iff.mp missing q ((mem_values_iff yields).mpr ⟨a, known⟩)
  have inSlot := List.findSome?_eq_none_iff.mp inQueue (some tx) inSlots
  simp [same] at inSlot

end MempoolInner

end Bulkmail.Mempool
