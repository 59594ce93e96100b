import Bulkmail.Mempool.Transitions

/-! # What the operations do to lookups

The tracker seen from outside: which transaction a lookup returns and which confirmed
nonce an account has.  An eviction empties one position, an insertion fills one, and
a block empties everything at or below an included nonce of the same sender.
-/

namespace Bulkmail.Mempool.MempoolInner

open Library

variable {s s' : MempoolInner} {tx : PendingTx} {key : PriorityKey} {block : BlockUpdate}
variable {a : Address} {n : ℕ}

def confirmedNonceOf (s : MempoolInner) (a : Address) : Option ℕ :=
  (s.accountQueues.lookup a).map AccountQueue.confirmedNonce

theorem confirmedNonceOf_setQueue {b : Address} {q : AccountQueue} :
    (s.setQueue a q).confirmedNonceOf b =
      if b = a then some q.confirmedNonce else s.confirmedNonceOf b := by
  simp only [confirmedNonceOf, lookup_setQueue]
  split <;> rfl

theorem findTx_below {floor : ℕ} (at_ : s.confirmedNonceOf a = some floor) (below : n < floor) :
    s.findTxByAddrAndNonce a n = none := by
  obtain ⟨q, known, rfl⟩ := Option.map_eq_some_iff.mp at_
  rw [findTx_eq known]
  exact AccountQueue.txAt_below below

/-! ## Insertion -/

theorem findTx_evicted (evicted : Evicted s key s') :
    s'.findTxByAddrAndNonce a n =
      if a = key.addr ∧ n = key.nonce then none else s.findTxByAddrAndNonce a n := by
  cases evicted with
  | stale empty =>
      split
      · rename_i here
        rw [here.1, here.2]
        exact empty
      · rfl
  | @held q victim known found =>
      have above := (AccountQueue.txAt_eq_some_iff.mp found).1
      refine findTx_setQueue.trans ?_
      by_cases account : a = key.addr
      · rw [if_pos account, AccountQueue.txAt_vacate above, account, findTx_eq known]
        simp only [true_and]
      · rw [if_neg account, if_neg fun here => account here.1]

theorem confirmedNonceOf_evicted (evicted : Evicted s key s') :
    s'.confirmedNonceOf a = s.confirmedNonceOf a := by
  cases evicted with
  | stale => rfl
  | @held q victim known found =>
      refine confirmedNonceOf_setQueue.trans ?_
      split
      · rename_i account
        rw [confirmedNonceOf, account, known, Option.map_some]
        rfl
      · rfl

theorem queueFor_congr
    (same : s'.accountQueues.lookup tx.sender = s.accountQueues.lookup tx.sender) :
    s'.queueFor tx = s.queueFor tx := by
  simp only [queueFor, same]

/-- An eviction keeps the shape of every queue, so it does not matter to the
    per-account check. -/
theorem queueFor_evicted (tx : PendingTx) (evicted : Evicted s key s') :
    (s'.queueFor tx).confirmedNonce = (s.queueFor tx).confirmedNonce ∧
      (s'.queueFor tx).slots.length = (s.queueFor tx).slots.length := by
  cases evicted with
  | stale => exact ⟨rfl, rfl⟩
  | @held q victim known found =>
      change ((s.setQueue key.addr (q.vacate key.nonce)).queueFor tx).confirmedNonce = _ ∧
        ((s.setQueue key.addr (q.vacate key.nonce)).queueFor tx).slots.length = _
      by_cases account : tx.sender = key.addr
      · have old : s.queueFor tx = q := queueFor_of_known (account ▸ known)
        have new : (s.setQueue key.addr (q.vacate key.nonce)).queueFor tx = q.vacate key.nonce :=
          queueFor_of_known (lookup_setQueue.trans (if_pos account))
        rw [old, new]
        exact ⟨rfl, AccountQueue.length_vacate⟩
      · rw [queueFor_congr (lookup_setQueue.trans (if_neg account))]
        exact ⟨rfl, rfl⟩

theorem config_evicted (evicted : Evicted s key s') : s'.config = s.config := by
  cases evicted <;> rfl

theorem currentBaseFee_evicted (evicted : Evicted s key s') :
    s'.currentBaseFee = s.currentBaseFee := by
  cases evicted <;> rfl

theorem priorityQueue_evicted (evicted : Evicted s key s') :
    s'.priorityQueue = s.priorityQueue.erase key := by
  cases evicted <;> rfl

theorem fits_evicted (evicted : Evicted s key s') : s'.Fits tx ↔ s.Fits tx := by
  obtain ⟨floor, length⟩ := queueFor_evicted tx evicted
  simp only [Fits, floor, length, config_evicted evicted]

theorem findTx_unfit :
    (s.setQueue tx.sender (s.queueFor tx)).findTxByAddrAndNonce a n =
      s.findTxByAddrAndNonce a n := by
  rw [findTx_setQueue]
  split
  · rename_i account
    rw [txAt_queueFor, account]
  · rfl

theorem findTx_accepted :
    (s.setQueue tx.sender ((s.queueFor tx).accept tx)).findTxByAddrAndNonce a n =
      if a = tx.sender ∧ n = tx.nonce then some tx else s.findTxByAddrAndNonce a n := by
  rw [findTx_setQueue]
  by_cases account : a = tx.sender
  · rw [if_pos account, AccountQueue.txAt_accept, txAt_queueFor, account]
    simp only [true_and]
  · rw [if_neg account, if_neg fun here => account here.1]

theorem findTx_tracked (tracked : Tracked s tx s') :
    s'.findTxByAddrAndNonce a n =
      if s.Fits tx ∧ a = tx.sender ∧ n = tx.nonce then some tx
      else s.findTxByAddrAndNonce a n := by
  cases tracked with
  | unfit unfit => exact findTx_unfit.trans (if_neg fun both => unfit both.1).symm
  | accepted fits =>
      refine findTx_accepted.trans ?_
      simp only [fits, true_and]

theorem queueFor_confirmedNonce {floor : ℕ} (at_ : s.confirmedNonceOf tx.sender = some floor) :
    (s.queueFor tx).confirmedNonce = floor := by
  obtain ⟨q, known, rfl⟩ := Option.map_eq_some_iff.mp at_
  rw [queueFor_of_known known]

/-- An accepted transaction pulls its sender's floor down to its own nonce. -/
theorem confirmedNonceOf_tracked {floor : ℕ} (tracked : Tracked s tx s')
    (at_ : s.confirmedNonceOf a = some floor) :
    s'.confirmedNonceOf a =
      some (if tx.sender = a ∧ s.Fits tx then min floor tx.nonce else floor) := by
  by_cases own : tx.sender = a
  · subst own
    have same := queueFor_confirmedNonce at_
    cases tracked with
    | unfit unfit =>
        rw [if_neg fun both => unfit both.2, confirmedNonceOf_setQueue, if_pos rfl, same]
    | accepted fits =>
        rw [if_pos ⟨rfl, fits⟩, ← same, ← AccountQueue.confirmedNonce_accept]
        exact confirmedNonceOf_setQueue.trans (if_pos rfl)
  · rw [if_neg fun both => own both.1, ← at_]
    cases tracked with
    | unfit => exact confirmedNonceOf_setQueue.trans (if_neg (Ne.symm own))
    | accepted => exact confirmedNonceOf_setQueue.trans (if_neg (Ne.symm own))

/-! ## Blocks -/

theorem findTx_removeIncluded :
    (s.removeIncluded tx).findTxByAddrAndNonce a n =
      if a = tx.sender ∧ n = tx.nonce then none else s.findTxByAddrAndNonce a n := by
  generalize removed : s.removeIncluded tx = s'
  have spec := removeIncluded_spec s tx
  rw [removed] at spec
  cases spec with
  | untracked empty =>
      split
      · rename_i here
        rw [here.1, here.2]
        exact empty
      · rfl
  | @tracked q mempoolTx known found =>
      have above := (AccountQueue.txAt_eq_some_iff.mp found).1
      refine findTx_setQueue.trans ?_
      by_cases account : a = tx.sender
      · rw [if_pos account, AccountQueue.txAt_vacate above, account, findTx_eq known]
        simp only [true_and]
      · rw [if_neg account, if_neg fun here => account here.1]

theorem findTx_confirmed (confirmed : Confirmed s tx s') :
    s'.findTxByAddrAndNonce a n =
      if a = tx.sender ∧ n ≤ tx.nonce then none else s.findTxByAddrAndNonce a n := by
  cases confirmed with
  | unknown unknown =>
      split
      · rename_i here
        rw [here.1, findTxByAddrAndNonce, unknown, Option.bind_none]
      · rfl
  | @known q known =>
      rw [findTx_setQueue]
      by_cases account : a = tx.sender
      · rw [if_pos account, AccountQueue.txAt_confirmTo, account, findTx_eq known]
        simp only [true_and]
        rcases Nat.lt_or_ge n q.confirmedNonce with below | above
        · rw [AccountQueue.txAt_below below, ite_self, ite_self]
        · simp only [lt_max_iff, Nat.not_lt.mpr above, false_or, Nat.lt_succ_iff]
      · rw [if_neg account, if_neg fun here => account here.1]

theorem findTx_foldl_removeIncluded (txs : List PendingTx) :
    (txs.foldl removeIncluded s).findTxByAddrAndNonce a n =
      if ∃ tx ∈ txs, a = tx.sender ∧ n = tx.nonce then none else s.findTxByAddrAndNonce a n := by
  induction txs generalizing s with
  | nil => simp
  | cons tx rest ih =>
      rw [List.foldl_cons, ih, findTx_removeIncluded]
      by_cases here : a = tx.sender ∧ n = tx.nonce
      · rw [if_pos here, ite_self, if_pos ⟨tx, List.mem_cons_self, here⟩]
      · simp only [List.mem_cons, exists_eq_or_imp, here, false_or, if_false]

theorem findTx_runs_confirmIncluded {txs : List PendingTx}
    (ran : runs confirmIncluded s txs = some s') :
    s'.findTxByAddrAndNonce a n =
      if ∃ tx ∈ txs, a = tx.sender ∧ n ≤ tx.nonce then none else s.findTxByAddrAndNonce a n := by
  induction txs generalizing s with
  | nil =>
      obtain rfl := Option.some.inj ran
      simp
  | cons tx rest ih =>
      obtain ⟨next, taken, later⟩ := Option.bind_eq_some_iff.mp ran
      rw [ih later, findTx_confirmed (confirmIncluded_spec taken)]
      by_cases here : a = tx.sender ∧ n ≤ tx.nonce
      · rw [if_pos here, ite_self, if_pos ⟨tx, List.mem_cons_self, here⟩]
      · simp only [List.mem_cons, exists_eq_or_imp, here, false_or, if_false]

/-- A block empties everything at or below an included nonce and nothing else. -/
theorem findTx_applied (applied : s.applyBlock block = some s') :
    s'.findTxByAddrAndNonce a n =
      if ∃ tx ∈ block.includedTxs, a = tx.sender ∧ n ≤ tx.nonce then none
      else s.findTxByAddrAndNonce a n := by
  obtain ⟨gas, confirmed, ran, rfl⟩ := applyBlock_spec applied
  change confirmed.findTxByAddrAndNonce a n = _
  rw [findTx_runs_confirmIncluded ran, findTx_foldl_removeIncluded]
  split
  · rfl
  · rename_i outside
    rw [if_neg fun included => outside (included.imp fun _ here => ⟨here.1, here.2.1, here.2.2.le⟩)]
    rfl

/-! ## What a block raises -/

/-- One past the largest nonce of the account among the transactions, or zero. -/
def ceiling (txs : List PendingTx) (a : Address) : ℕ :=
  (txs.toFinset.filter (·.sender = a)).sup (·.nonce + 1)

theorem ceiling_cons (txs : List PendingTx) :
    ceiling (tx :: txs) a =
      if tx.sender = a then max (tx.nonce + 1) (ceiling txs a) else ceiling txs a := by
  rw [ceiling, List.toFinset_cons, Finset.filter_insert]
  split
  · exact Finset.sup_insert
  · rfl

theorem lt_ceiling_iff {txs : List PendingTx} :
    n < ceiling txs a ↔ ∃ tx ∈ txs, a = tx.sender ∧ n ≤ tx.nonce := by
  simp only [ceiling, Finset.lt_sup_iff, Finset.mem_filter, List.mem_toFinset, Nat.lt_succ_iff,
    and_assoc, @eq_comm _ a]

section Measures

variable (measure : AccountQueue → ℕ)

theorem measure_removed (keeps : ∀ q n, measure (q.vacate n) = measure q)
    (removed : Removed s tx s') :
    (s'.accountQueues.lookup a).map measure = (s.accountQueues.lookup a).map measure := by
  cases removed with
  | untracked => rfl
  | @tracked q mempoolTx known found =>
      refine (congrArg (Option.map measure) lookup_setQueue).trans ?_
      split
      · rename_i account
        rw [account, known, Option.map_some, Option.map_some, keeps]
      · rfl

theorem measure_foldl_removeIncluded (keeps : ∀ q n, measure (q.vacate n) = measure q)
    (txs : List PendingTx) :
    ((txs.foldl removeIncluded s).accountQueues.lookup a).map measure =
      (s.accountQueues.lookup a).map measure := by
  induction txs generalizing s with
  | nil => rfl
  | cons tx rest ih =>
      rw [List.foldl_cons, ih, measure_removed measure keeps (removeIncluded_spec s tx)]

theorem measure_confirmed (raises : ∀ q n, measure (q.confirmTo n) = max (measure q) n)
    (confirmed : Confirmed s tx s') :
    (s'.accountQueues.lookup a).map measure = (s.accountQueues.lookup a).map fun q =>
      if tx.sender = a then max (measure q) (tx.nonce + 1) else measure q := by
  cases confirmed with
  | unknown unknown =>
      by_cases account : tx.sender = a
      · rw [← account, unknown]
        rfl
      · simp only [if_neg account]
  | @known q known =>
      refine (congrArg (Option.map measure) lookup_setQueue).trans ?_
      by_cases account : tx.sender = a
      · rw [if_pos account.symm, ← account, known, Option.map_some, Option.map_some, raises,
          if_pos rfl]
      · simp only [if_neg account, if_neg (Ne.symm account)]

theorem measure_runs_confirmIncluded
    (raises : ∀ q n, measure (q.confirmTo n) = max (measure q) n) {txs : List PendingTx}
    (ran : runs confirmIncluded s txs = some s') :
    (s'.accountQueues.lookup a).map measure =
      (s.accountQueues.lookup a).map fun q => max (measure q) (ceiling txs a) := by
  induction txs generalizing s with
  | nil =>
      obtain rfl := Option.some.inj ran
      simp [ceiling]
  | cons tx rest ih =>
      obtain ⟨next, taken, later⟩ := Option.bind_eq_some_iff.mp ran
      have first := measure_confirmed measure raises (confirmIncluded_spec taken) (a := a)
      have after := congrArg (Option.map (max · (ceiling rest a))) first
      rw [Option.map_map, Option.map_map] at after
      refine (ih later).trans (after.trans ?_)
      congr 1
      funext q
      simp only [Function.comp_apply, ceiling_cons]
      split
      · exact max_assoc _ _ _
      · rfl

/-- What an emptied slot does not change and a confirmation raises, such as a floor, a block
    raises to the account's ceiling. -/
theorem measure_applied (keeps : ∀ q n, measure (q.vacate n) = measure q)
    (raises : ∀ q n, measure (q.confirmTo n) = max (measure q) n)
    (applied : s.applyBlock block = some s') :
    (s'.accountQueues.lookup a).map measure =
      (s.accountQueues.lookup a).map fun q => max (measure q) (ceiling block.includedTxs a) := by
  obtain ⟨gas, confirmed, ran, rfl⟩ := applyBlock_spec applied
  have removed := measure_foldl_removeIncluded measure keeps block.includedTxs
    (s := s.updatePrivateFlow block gas) (a := a)
  have after := congrArg (Option.map (max · (ceiling block.includedTxs a))) removed
  rw [Option.map_map, Option.map_map] at after
  exact (measure_runs_confirmIncluded measure raises ran).trans after

end Measures

theorem confirmedNonceOf_applied {floor : ℕ} (applied : s.applyBlock block = some s')
    (at_ : s.confirmedNonceOf a = some floor) :
    s'.confirmedNonceOf a = some (max floor (ceiling block.includedTxs a)) := by
  obtain ⟨q, known, rfl⟩ := Option.map_eq_some_iff.mp at_
  have raised := measure_applied AccountQueue.confirmedNonce (fun _ _ => rfl) (fun _ _ => rfl)
    applied (a := a)
  rw [known] at raised
  exact raised

end Bulkmail.Mempool.MempoolInner
