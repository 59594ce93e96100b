import Bulkmail.Mempool.Transitions

/-! # The forward scan and the backward check

`apply_block` decides which transactions to queue with one forward scan of each
account, `classify_transaction` with a walk over the slots in front of one
transaction.  Both are brought to the same form here: a nonce is marketable when
every nonce from the account's floor up to it is held by a paying transaction.
-/

namespace Bulkmail.Mempool

open Library

/-- The transaction clears the base fee and leaves a tip. -/
def Pays (baseFee : ℕ) (tx : PendingTx) : Prop := 0 < tx.effectivePriorityFee baseFee

instance (baseFee : ℕ) : DecidablePred (Pays baseFee) :=
  fun tx => inferInstanceAs (Decidable (0 < tx.effectivePriorityFee baseFee))

variable {baseFee fee n : ℕ} {tx : PendingTx} {q : AccountQueue} {key : PriorityKey}

/-- The explicit base-fee comparison of the source is implied by a positive tip. -/
theorem Pays.covers_base (pays : Pays baseFee tx) : ¬ tx.maxFeePerGas < baseFee := by
  unfold Pays PendingTx.effectivePriorityFee at pays
  omega

/-! ## The scan -/

theorem foldl_rescanSlot_bound (slots : List (Option PendingTx)) (queue : Finset PriorityKey) :
    slots.foldl (rescanSlot baseFee) (true, queue) = (true, queue) := by
  induction slots with
  | nil => rfl
  | cons slot rest ih => cases slot <;> exact ih

theorem mem_foldl_rescanSlot {slots : List (Option PendingTx)} :
    key ∈ (slots.foldl (rescanSlot baseFee) (false, ∅)).2 ↔
      ∃ i tx, i < readyRun (Pays baseFee) slots ∧ slots[i]? = some (some tx) ∧
        key = tx.priorityKey baseFee := by
  induction slots with
  | nil => simp [readyRun]
  | cons slot rest ih =>
      cases slot with
      | none => simp [rescanSlot, readyRun, foldl_rescanSlot_bound]
      | some tx =>
          by_cases pays : Pays baseFee tx
          · have scanned : rescanSlot baseFee (false, ∅) (some tx) =
                (false, {tx.priorityKey baseFee}) := by
              simp only [rescanSlot, Bool.false_eq_true, if_false, if_neg pays.covers_base]
              exact if_pos pays
            rw [List.foldl_cons, scanned, foldl_rescanSlot, Finset.mem_union, ih,
              Finset.mem_singleton]
            simp only [readyRun, if_pos pays]
            constructor
            · rintro (rfl | ⟨i, tx', ready, found, rfl⟩)
              · exact ⟨0, tx, Nat.succ_pos _, rfl, rfl⟩
              · exact ⟨i + 1, tx', Nat.succ_lt_succ ready, by simpa using found, rfl⟩
            · rintro ⟨i, tx', ready, found, rfl⟩
              cases i with
              | zero =>
                  simp only [List.getElem?_cons_zero, Option.some.injEq] at found
                  exact .inl (by rw [found])
              | succ i =>
                  exact .inr ⟨i, tx', Nat.lt_of_succ_lt_succ ready, by simpa using found, rfl⟩
          · have scanned : rescanSlot baseFee (false, ∅) (some tx) = (true, ∅) := by
              simp only [rescanSlot, Bool.false_eq_true, if_false]
              split
              · rfl
              · exact if_neg pays
            rw [List.foldl_cons, scanned, foldl_rescanSlot_bound]
            simp [readyRun, pays]

/-- A nonce of the account is marketable: nothing from the floor up to it is
    missing or underpaid. -/
def AccountQueue.MarketableAt (q : AccountQueue) (baseFee n : ℕ) : Prop :=
  Linked (Pays baseFee) q.confirmedNonce q.txAt n

theorem mem_rescanAccount :
    key ∈ rescanAccount baseFee ∅ q ↔
      ∃ n tx, q.MarketableAt baseFee n ∧ q.txAt n = some tx ∧ key = tx.priorityKey baseFee := by
  unfold rescanAccount AccountQueue.MarketableAt
  rw [mem_foldl_rescanSlot]
  constructor
  · rintro ⟨i, tx, ready, found, rfl⟩
    refine ⟨q.confirmedNonce + i, tx, linked_iff_lt_readyRun.mpr ⟨by omega, ?_⟩, ?_, rfl⟩
    · rwa [Nat.add_sub_cancel_left]
    · rw [AccountQueue.txAt_confirmedNonce_add, found, Option.join_some]
  · rintro ⟨n, tx, linked, found, rfl⟩
    obtain ⟨-, ready⟩ := linked_iff_lt_readyRun.mp linked
    exact ⟨n - q.confirmedNonce, tx, ready, (AccountQueue.txAt_eq_some_iff.mp found).2, rfl⟩

theorem mem_rebuildPriorityQueue {queues : AccountQueues} :
    key ∈ rebuildPriorityQueue baseFee queues ↔
      ∃ a q, queues.lookup a = some q ∧
        ∃ n tx, q.MarketableAt baseFee n ∧ q.txAt n = some tx ∧ key = tx.priorityKey baseFee := by
  unfold rebuildPriorityQueue
  rw [mem_foldl_iff (rescanAccount_eq_union baseFee)]
  simp only [mem_rescanAccount]

/-- The marketable nonces of an account are a block that starts at its floor. -/
theorem AccountQueue.marketableAt_iff_lt :
    q.MarketableAt baseFee n ↔
      q.confirmedNonce ≤ n ∧ n < q.confirmedNonce + readyRun (Pays baseFee) q.slots := by
  unfold MarketableAt
  rw [show q.txAt = cellAt q.confirmedNonce q.slots from rfl, linked_iff_lt_readyRun]
  constructor <;> rintro ⟨above, ready⟩ <;> exact ⟨above, by omega⟩

/-! ## The check -/

theorem not_blocks_iff {slot : Option (Option PendingTx)} :
    MempoolInner.blocks baseFee slot = false ↔ ∃ tx, slot = some (some tx) ∧ Pays baseFee tx := by
  match slot with
  | none | some none => simp [MempoolInner.blocks]
  | some (some tx) =>
      simp only [MempoolInner.blocks, Bool.or_eq_false_iff, decide_eq_false_iff_not,
        beq_eq_false_iff_ne, Option.some.injEq, exists_eq_left']
      exact ⟨fun checked => Nat.pos_of_ne_zero checked.2,
        fun pays => ⟨pays.covers_base, Nat.ne_of_gt pays⟩⟩

/-- The walk of `classify_transaction` wants every slot in front filled by a paying
    transaction and the transaction itself to pay. -/
theorem MempoolInner.classifyTransaction_marketable {s : MempoolInner} :
    s.classifyTransaction tx = some .marketable ↔
      ∃ q, s.accountQueues.lookup tx.sender = some q ∧ q.confirmedNonce ≤ tx.nonce ∧
        (∀ i < tx.nonce - q.confirmedNonce, ∃ front, q.slots[i]? = some (some front) ∧
          Pays s.currentBaseFee front) ∧
        Pays s.currentBaseFee tx := by
  unfold classifyTransaction
  cases known : s.accountQueues.lookup tx.sender with
  | none => simp
  | some q =>
      simp only [Option.some.injEq, exists_eq_left']
      by_cases above : q.confirmedNonce ≤ tx.nonce
      · have clear : ¬ (List.range (tx.nonce - q.confirmedNonce)).any
            (fun i => blocks s.currentBaseFee q.slots[i]?) = true ↔
              ∀ i < tx.nonce - q.confirmedNonce, ∃ front, q.slots[i]? = some (some front) ∧
                Pays s.currentBaseFee front := by
          simp only [List.any_eq_true, List.mem_range, not_exists, not_and, Bool.not_eq_true,
            not_blocks_iff]
        rw [checkedSub_of_le above, Option.map_some, Option.some.injEq, ← clear]
        constructor
        · intro marketable
          split at marketable
          · cases marketable
          · rename_i front
            split at marketable
            · cases marketable
            · split at marketable
              · cases marketable
              · rename_i tip
                exact ⟨above, front, Nat.pos_of_ne_zero tip⟩
        · intro conditions
          obtain ⟨-, front, pays⟩ := conditions
          rw [if_neg front, if_neg pays.covers_base]
          exact if_neg (Nat.ne_of_gt pays)
      · simp [checkedSub, above]

/-- Tracked transactions are classified marketable exactly at the marketable nonces. -/
theorem MempoolInner.classifyTransaction_eq_marketable_iff {s : MempoolInner}
    (known : s.accountQueues.lookup tx.sender = some q) (held : q.txAt tx.nonce = some tx) :
    s.classifyTransaction tx = some .marketable ↔ q.MarketableAt s.currentBaseFee tx.nonce := by
  obtain ⟨above, found⟩ := AccountQueue.txAt_eq_some_iff.mp held
  rw [classifyTransaction_marketable, known]
  simp only [Option.some.injEq, exists_eq_left']
  rw [AccountQueue.MarketableAt, show q.txAt = cellAt q.confirmedNonce q.slots from rfl,
    linked_iff_lt_readyRun, lt_readyRun_iff]
  constructor
  · intro conditions
    obtain ⟨-, front, pays⟩ := conditions
    refine ⟨above, fun i le => ?_⟩
    rcases Nat.lt_or_eq_of_le le with before | rfl
    · exact front i before
    · exact ⟨tx, found, pays⟩
  · intro linked
    obtain ⟨last, shown, pays⟩ := linked.2 _ le_rfl
    rw [found, Option.some.injEq, Option.some.injEq] at shown
    exact ⟨above, fun i before => linked.2 i before.le, shown ▸ pays⟩

end Bulkmail.Mempool
