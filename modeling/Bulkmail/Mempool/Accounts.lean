import Bulkmail.Mempool.Tracker

/-! # What the account queue operations do to a queue

Seen through `txAt`, an account queue is a partial map from nonces to transactions
together with a floor, `confirmedNonce`.  Every operation is a point update of that
map or a move of its floor; how the slot vector is shifted to get there is settled
here and not looked at again.
-/

namespace Bulkmail.Mempool.AccountQueue

open Library

variable {q q' : AccountQueue} {tx : PendingTx} {capacity nonce n : ℕ}

theorem txAt_eq_some_iff :
    q.txAt n = some tx ↔ q.confirmedNonce ≤ n ∧ q.slots[n - q.confirmedNonce]? = some (some tx) :=
  cellAt_eq_some_iff

theorem txAt_below (below : n < q.confirmedNonce) : q.txAt n = none := cellAt_below below

theorem txAt_confirmedNonce_add (i : ℕ) : q.txAt (q.confirmedNonce + i) = q.slots[i]?.join :=
  cellAt_base_add

theorem txAt_new (floor : ℕ) : (⟨floor, []⟩ : AccountQueue).txAt n = none := cellAt_nil

theorem txAt_vacate (above : q.confirmedNonce ≤ nonce) :
    (q.vacate nonce).txAt n = if n = nonce then none else q.txAt n := by
  have position : q.confirmedNonce + (nonce - q.confirmedNonce) = nonce := by omega
  simpa only [txAt, vacate, position] using
    cellAt_set_none q.confirmedNonce (nonce - q.confirmedNonce) n q.slots

theorem length_vacate : (q.vacate nonce).slots.length = q.slots.length := List.length_set

theorem occupied_vacate (held : q.txAt nonce = some tx) :
    occupied (q.vacate nonce).slots + 1 = occupied q.slots := by
  obtain ⟨-, found⟩ := txAt_eq_some_iff.mp held
  obtain ⟨inside, content⟩ := List.getElem?_eq_some_iff.mp found
  have counted := occupied_set inside none
  rw [content] at counted
  exact counted

theorem txAt_place (above : q.confirmedNonce ≤ tx.nonce) :
    (q.place tx).txAt n = if n = tx.nonce then some tx else q.txAt n := by
  have position : q.confirmedNonce + (tx.nonce - q.confirmedNonce) = tx.nonce := by omega
  simpa only [txAt, place, position] using
    cellAt_rightpad_set q.confirmedNonce (tx.nonce - q.confirmedNonce) n q.slots tx

theorem length_place :
    (q.place tx).slots.length = max (tx.nonce - q.confirmedNonce + 1) q.slots.length := by
  simp only [place, List.length_set, List.length_rightpad]

/-- Writing a slot adds one transaction unless it replaces one. -/
theorem occupied_place (above : q.confirmedNonce ≤ tx.nonce) :
    occupied (q.place tx).slots + (if (q.txAt tx.nonce).isSome then 1 else 0) =
      occupied q.slots + 1 := by
  let i := tx.nonce - q.confirmedNonce
  have inside : i < (q.slots.rightpad (i + 1) none).length := by
    rw [List.length_rightpad]
    exact lt_max_of_lt_left (Nat.lt_succ_self i)
  have old : (q.slots.rightpad (i + 1) none)[i] = q.txAt tx.nonce := by
    have position : tx.nonce = q.confirmedNonce + i := by omega
    rw [position, txAt_confirmedNonce_add, ← Option.some_inj, ← List.getElem?_eq_getElem inside,
      List.rightpad, List.getElem?_append]
    split
    · rename_i present
      rw [List.getElem?_eq_getElem present, Option.join_some]
    · rename_i missing
      rw [List.getElem?_eq_none (Nat.not_lt.mp missing), List.getElem?_replicate,
        if_pos (by omega)]
      rfl
  have counted := occupied_set inside (some tx)
  rw [old, occupied_rightpad] at counted
  exact counted

/-- The queue with its floor moved down to a nonce, if it is above it. -/
def lowerTo (q : AccountQueue) (nonce : ℕ) : AccountQueue :=
  ⟨min q.confirmedNonce nonce, List.replicate (q.confirmedNonce - nonce) none ++ q.slots⟩

theorem lowerTo_of_le (above : q.confirmedNonce ≤ nonce) : q.lowerTo nonce = q := by
  simp only [lowerTo, Nat.min_eq_left above, Nat.sub_eq_zero_of_le above, List.replicate_zero,
    List.nil_append]

theorem txAt_lowerTo : (q.lowerTo nonce).txAt n = q.txAt n := by
  have moved := cellAt_replicate_append n q.slots (Nat.min_le_left q.confirmedNonce nonce)
  have padding : q.confirmedNonce - min q.confirmedNonce nonce = q.confirmedNonce - nonce := by
    omega
  rwa [padding] at moved

theorem length_lowerTo :
    (q.lowerTo nonce).slots.length = q.confirmedNonce - nonce + q.slots.length := by
  simp only [lowerTo, List.length_append, List.length_replicate]

theorem occupied_lowerTo : occupied (q.lowerTo nonce).slots = occupied q.slots := by
  simp only [lowerTo, occupied_append, occupied_replicate_none, Nat.zero_add]

/-- `rebase` either hits the capacity or moves the floor. -/
theorem rebase_cases {result : Option AccountQueue}
    (rebased : q.rebase capacity nonce = some result) :
    (result = none ∧ nonce < q.confirmedNonce ∧
      capacity < q.confirmedNonce - nonce + q.slots.length) ∨
    (result = some (q.lowerTo nonce) ∧ (nonce < q.confirmedNonce →
      q.confirmedNonce - nonce + q.slots.length ≤ capacity)) := by
  unfold rebase at rebased
  split at rebased
  · rename_i below
    obtain ⟨needed, sum, rfl⟩ := Option.map_eq_some_iff.mp rebased
    obtain ⟨-, rfl⟩ := checkedAdd_eq_some_iff.mp sum
    split
    · rename_i tooMany
      exact .inl ⟨rfl, below, tooMany⟩
    · rename_i fits
      refine .inr ⟨?_, fun _ => Nat.not_lt.mp fits⟩
      simp only [lowerTo, Nat.min_eq_right below.le]
  · rename_i above
    refine .inr ⟨?_, fun below => absurd below above⟩
    rw [lowerTo_of_le (Nat.not_lt.mp above)]
    exact (Option.some.inj rebased).symm

/-- What the queue looks like once a transaction has got past both checks. -/
def accept (q : AccountQueue) (tx : PendingTx) : AccountQueue := (q.lowerTo tx.nonce).place tx

theorem confirmedNonce_accept : (q.accept tx).confirmedNonce = min q.confirmedNonce tx.nonce := rfl

theorem txAt_accept : (q.accept tx).txAt n = if n = tx.nonce then some tx else q.txAt n := by
  rw [accept, txAt_place (Nat.min_le_right _ _), txAt_lowerTo]

theorem occupied_accept (q : AccountQueue) (tx : PendingTx) :
    occupied (q.accept tx).slots + (if (q.txAt tx.nonce).isSome then 1 else 0) =
      occupied q.slots + 1 := by
  have above : (q.lowerTo tx.nonce).confirmedNonce ≤ tx.nonce := Nat.min_le_right _ _
  have placed := occupied_place above
  rwa [txAt_lowerTo, occupied_lowerTo] at placed

theorem length_accept_le (short : q.slots.length ≤ capacity)
    (low : tx.nonce < q.confirmedNonce → q.confirmedNonce - tx.nonce + q.slots.length ≤ capacity)
    (high : q.confirmedNonce ≤ tx.nonce → tx.nonce - q.confirmedNonce < capacity) :
    (q.accept tx).slots.length ≤ capacity := by
  rw [accept, length_place, length_lowerTo]
  change max (tx.nonce - min q.confirmedNonce tx.nonce + 1) _ ≤ capacity
  rcases Nat.lt_or_ge tx.nonce q.confirmedNonce with below | above
  · have needed := low below
    omega
  · have needed := high above
    omega

theorem slots_confirmTo :
    (q.confirmTo nonce).slots =
      q.slots.drop (max q.confirmedNonce nonce - q.confirmedNonce) := by
  simp only [confirmTo]
  split
  · split
    · rfl
    · rename_i beyond
      rw [List.drop_eq_nil_of_le (Nat.not_lt.mp beyond)]
  · rename_i unmoved
    rw [Nat.eq_zero_of_not_pos unmoved, List.drop_zero]

theorem txAt_confirmTo :
    (q.confirmTo nonce).txAt n =
      if n < max q.confirmedNonce nonce then none else q.txAt n := by
  rw [txAt, slots_confirmTo]
  exact cellAt_drop (le_max_left q.confirmedNonce nonce)

theorem length_confirmTo_le : (q.confirmTo nonce).slots.length ≤ q.slots.length := by
  rw [slots_confirmTo, List.length_drop]
  exact Nat.sub_le _ _

theorem occupied_confirmTo_le (q : AccountQueue) (nonce : ℕ) :
    occupied (q.confirmTo nonce).slots ≤ occupied q.slots := by
  rw [slots_confirmTo]
  exact occupied_drop_le _ _

end Bulkmail.Mempool.AccountQueue
