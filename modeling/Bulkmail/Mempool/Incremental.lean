import Bulkmail.Library.Blocks
import Bulkmail.Mempool.Marketable
import Bulkmail.Mempool.View

/-! # Incremental updates of the priority queue

Between blocks `insert` changes at most two entries of the priority queue: the one its
eviction pops and the one it adds.  The rebuild after the next block may see more
changes than that, because a slot that empties or fills moves the end of its account's
run.  This module works out exactly when the two agree.
-/

namespace Bulkmail.Mempool

open Library

namespace MempoolInner

variable {s s' room : MempoolInner} {tx : PendingTx} {key : PriorityKey} {a : Address}
variable {n floor : ℕ}

/-- The queue is the one a rebuild would give. -/
def Synced (s : MempoolInner) : Prop :=
  s.priorityQueue = rebuildPriorityQueue s.currentBaseFee s.accountQueues

def queuedOf (s : MempoolInner) (a : Address) : Set (ℕ × ℕ) :=
  {entry | ⟨entry.2, a, entry.1⟩ ∈ s.priorityQueue}

def listingOf (s : MempoolInner) (a : Address) : Set (ℕ × ℕ) :=
  (s.confirmedNonceOf a).elim ∅ fun floor =>
    listing (Pays s.currentBaseFee) (·.effectivePriorityFee s.currentBaseFee) floor
      (s.findTxByAddrAndNonce a)

def PaysAt (s : MempoolInner) (a : Address) (n : ℕ) : Prop :=
  Shows (Pays s.currentBaseFee) (s.findTxByAddrAndNonce a) n

instance : Decidable (s.PaysAt a n) := inferInstanceAs (Decidable (Shows _ _ _))

theorem mem_rebuild_iff_mem_listingOf (inv : RepInv s) {fee : ℕ} :
    ⟨fee, a, n⟩ ∈ rebuildPriorityQueue s.currentBaseFee s.accountQueues ↔
      (n, fee) ∈ s.listingOf a := by
  rw [inv.consistent.mem_rebuild_iff, listingOf, confirmedNonceOf]
  cases known : s.accountQueues.lookup a with
  | none => simp
  | some q =>
      have view : s.findTxByAddrAndNonce a = q.txAt := funext fun _ => findTx_eq known
      simp only [Option.some.injEq, exists_eq_left', Option.map_some, Option.elim_some, view]
      rfl

/-- Whether the queue is in step can be checked account by account. -/
theorem synced_iff (inv : RepInv s) : s.Synced ↔ ∀ a, s.queuedOf a = s.listingOf a := by
  constructor
  · intro synced a
    ext ⟨n, fee⟩
    rw [← mem_rebuild_iff_mem_listingOf inv, ← synced]
    rfl
  · intro accounts
    ext ⟨fee, a, n⟩
    rw [mem_rebuild_iff_mem_listingOf inv, ← accounts a]
    rfl

theorem listingOf_eq (at_ : s.confirmedNonceOf a = some floor) :
    s.listingOf a = listing (Pays s.currentBaseFee) (·.effectivePriorityFee s.currentBaseFee) floor
      (s.findTxByAddrAndNonce a) := by
  rw [listingOf, at_, Option.elim_some]

/-- A new account lists nothing, whichever floor it starts from. -/
theorem listingOf_sender : s.listingOf tx.sender =
    listing (Pays s.currentBaseFee) (·.effectivePriorityFee s.currentBaseFee)
      (s.queueFor tx).confirmedNonce (s.findTxByAddrAndNonce tx.sender) := by
  cases known : s.accountQueues.lookup tx.sender with
  | none =>
      have nothing : ∀ m, s.findTxByAddrAndNonce tx.sender m = none := by
        simp [findTxByAddrAndNonce, known]
      rw [listing_of_shows_none nothing]
      simp [listingOf, confirmedNonceOf, known]
  | some q =>
      apply listingOf_eq
      rw [queueFor_of_known known, confirmedNonceOf, known, Option.map_some]

theorem findTx_below_queueFor (below : n < (s.queueFor tx).confirmedNonce) :
    s.findTxByAddrAndNonce tx.sender n = none := by
  rw [← txAt_queueFor]
  exact AccountQueue.txAt_below below

/-- Two states that look alike at an account list the same there. -/
theorem listingOf_congr (base : s'.currentBaseFee = s.currentBaseFee)
    (floors : s'.confirmedNonceOf a = s.confirmedNonceOf a)
    (views : s'.findTxByAddrAndNonce a = s.findTxByAddrAndNonce a) :
    s'.listingOf a = s.listingOf a := by
  rw [listingOf, listingOf, base, floors, views]

/-! ## Tracking -/

/-- The transaction continues its account's run of paying transactions, alone. -/
def ExtendsRun (s : MempoolInner) (tx : PendingTx) : Prop :=
  Extends (Pays s.currentBaseFee) (·.effectivePriorityFee s.currentBaseFee)
    (s.queueFor tx).confirmedNonce (s.findTxByAddrAndNonce tx.sender) tx.nonce tx

instance : Decidable (s.ExtendsRun tx) := inferInstanceAs (Decidable (Extends _ _ _ _ _ _))

theorem listingOf_unfit : (s.setQueue tx.sender (s.queueFor tx)).listingOf a = s.listingOf a := by
  have views : (s.setQueue tx.sender (s.queueFor tx)).findTxByAddrAndNonce a =
      s.findTxByAddrAndNonce a := funext fun _ => findTx_unfit
  by_cases own : a = tx.sender
  · subst own
    rw [listingOf_eq (confirmedNonceOf_setQueue.trans (if_pos rfl)), views, listingOf_sender]
    rfl
  · exact listingOf_congr rfl (confirmedNonceOf_setQueue.trans (if_neg own)) views

theorem listingOf_accepted :
    (s.setQueue tx.sender ((s.queueFor tx).accept tx)).listingOf a =
      if a = tx.sender then
        listing (Pays s.currentBaseFee) (·.effectivePriorityFee s.currentBaseFee)
          (min (s.queueFor tx).confirmedNonce tx.nonce)
          (Function.update (s.findTxByAddrAndNonce tx.sender) tx.nonce (some tx))
      else s.listingOf a := by
  have views : (s.setQueue tx.sender ((s.queueFor tx).accept tx)).findTxByAddrAndNonce a =
      if a = tx.sender then
        Function.update (s.findTxByAddrAndNonce tx.sender) tx.nonce (some tx)
      else s.findTxByAddrAndNonce a := by
    funext n
    rw [findTx_accepted]
    by_cases own : a = tx.sender
    · simp only [own, true_and, if_true, Function.update_apply]
    · simp only [own, false_and, if_false]
  by_cases own : a = tx.sender
  · rw [if_pos own] at views ⊢
    rw [listingOf_eq (confirmedNonceOf_setQueue.trans (if_pos own)), views,
      AccountQueue.confirmedNonce_accept]
    rfl
  · rw [if_neg own] at views ⊢
    exact listingOf_congr rfl (confirmedNonceOf_setQueue.trans (if_neg own)) views

theorem queuedOf_insert {q : AccountQueues} {eligibility : Finset EligibilityKey} :
    queuedOf { s with
      accountQueues := q
      baseFeeEligibility := eligibility
      priorityQueue := Insert.insert (tx.priorityKey s.currentBaseFee) s.priorityQueue } a =
    if a = tx.sender then
      Insert.insert (tx.nonce, tx.effectivePriorityFee s.currentBaseFee) (s.queuedOf a)
    else s.queuedOf a := by
  ext ⟨n, fee⟩
  by_cases own : a = tx.sender
  · simp only [queuedOf, PendingTx.priorityKey, own, if_true, Set.mem_ofPred_eq, Finset.mem_insert,
      PriorityKey.mk.injEq, Set.mem_insert_iff, Prod.mk.injEq, true_and]
    tauto
  · simp only [queuedOf, PendingTx.priorityKey, own, if_false, Set.mem_ofPred_eq,
      Finset.mem_insert, PriorityKey.mk.injEq, false_and, and_false, false_or]

/-- Once in step, tracking stays in step exactly when what it accepts extends the run. -/
theorem synced_tracked_iff (inv : RepInv s) (synced : s.Synced) (tracked : Tracked s tx s') :
    s'.Synced ↔ (s.Fits tx → s.ExtendsRun tx) := by
  rw [synced_iff (inv.tracked tracked)]
  rw [synced_iff inv] at synced
  cases tracked with
  | unfit unfit =>
      refine ⟨fun _ fits => absurd fits unfit, fun _ a => ?_⟩
      rw [listingOf_unfit]
      exact synced a
  | accepted fits =>
      simp only [fits, forall_const]
      refine (forall_congr' fun a => Eq.congr queuedOf_insert listingOf_accepted).trans ?_
      constructor
      · intro same
        have here := same tx.sender
        rw [if_pos rfl, if_pos rfl, synced, listingOf_sender] at here
        exact (listing_fill_iff fun _ below => findTx_below_queueFor below).mp here.symm
      · intro run b
        by_cases own : b = tx.sender
        · subst own
          rw [if_pos rfl, if_pos rfl, synced, listingOf_sender]
          exact ((listing_fill_iff fun _ below => findTx_below_queueFor below).mpr run).symm
        · rw [if_neg own, if_neg own]
          exact synced b

/-! ## Eviction -/

/-- A queue in step holds only what its account's run shows. -/
theorem queued_spec (inv : RepInv s) (synced : s.Synced) (member : key ∈ s.priorityQueue) :
    ∃ floor victim, s.confirmedNonceOf key.addr = some floor ∧
      Linked (Pays s.currentBaseFee) floor (s.findTxByAddrAndNonce key.addr) key.nonce ∧
      s.findTxByAddrAndNonce key.addr key.nonce = some victim ∧
      victim.effectivePriorityFee s.currentBaseFee = key.fee := by
  have listed : (key.nonce, key.fee) ∈ s.listingOf key.addr := by
    rw [← (synced_iff inv).mp synced]
    exact member
  cases at_ : s.confirmedNonceOf key.addr with
  | none =>
      rw [listingOf, at_] at listed
      cases listed
  | some floor =>
      rw [listingOf_eq at_] at listed
      obtain ⟨linked, victim, held, paid⟩ := listed
      exact ⟨floor, victim, rfl, linked, held, paid⟩

/-- And it holds all of that. -/
theorem queued_of_linked (inv : RepInv s) (synced : s.Synced)
    (at_ : s.confirmedNonceOf a = some floor)
    (linked : Linked (Pays s.currentBaseFee) floor (s.findTxByAddrAndNonce a) n)
    (held : s.findTxByAddrAndNonce a n = some tx) :
    ⟨tx.effectivePriorityFee s.currentBaseFee, a, n⟩ ∈ s.priorityQueue := by
  change (n, _) ∈ s.queuedOf a
  rw [(synced_iff inv).mp synced, listingOf_eq at_]
  exact ⟨linked, tx, held, rfl⟩

theorem findTx_evicted_update (evicted : Evicted s key room) :
    room.findTxByAddrAndNonce a =
      if a = key.addr then Function.update (s.findTxByAddrAndNonce key.addr) key.nonce none
      else s.findTxByAddrAndNonce a := by
  funext n
  rw [findTx_evicted evicted]
  by_cases own : a = key.addr
  · simp only [own, true_and, if_true, Function.update_apply]
  · simp only [own, false_and, if_false]

theorem queuedOf_evicted (evicted : Evicted s key room) :
    room.queuedOf a =
      if a = key.addr then s.queuedOf a \ {(key.nonce, key.fee)} else s.queuedOf a := by
  have popped := priorityQueue_evicted evicted
  ext ⟨n, fee⟩
  by_cases own : a = key.addr
  · have same : (⟨fee, a, n⟩ : PriorityKey) = key ↔ n = key.nonce ∧ fee = key.fee := by
      rw [PriorityKey.mk.injEq]
      simp only [own, true_and]
      tauto
    simp only [queuedOf, popped, own, if_true, Set.mem_ofPred_eq, Finset.mem_erase, Set.mem_sdiff,
      Set.mem_singleton_iff, Prod.mk.injEq]
    rw [← own, ne_eq, same]
    tauto
  · have other : (⟨fee, a, n⟩ : PriorityKey) ≠ key := fun same => own (same ▸ rfl)
    simp only [queuedOf, popped, own, if_false, Set.mem_ofPred_eq, Finset.mem_erase, ne_eq, other,
      not_false_eq_true, true_and]

theorem listingOf_evicted (at_ : s.confirmedNonceOf key.addr = some floor)
    (evicted : Evicted s key room) :
    room.listingOf a =
      if a = key.addr then
        listing (Pays s.currentBaseFee) (·.effectivePriorityFee s.currentBaseFee) floor
          (Function.update (s.findTxByAddrAndNonce key.addr) key.nonce none)
      else s.listingOf a := by
  have views := findTx_evicted_update evicted (a := a)
  have base := currentBaseFee_evicted evicted
  by_cases own : a = key.addr
  · rw [if_pos own] at views ⊢
    have floors : room.confirmedNonceOf a = some floor :=
      (confirmedNonceOf_evicted evicted).trans (own ▸ at_)
    rw [listingOf_eq floors, views, base]
  · rw [if_neg own] at views ⊢
    exact listingOf_congr base (confirmedNonceOf_evicted evicted) views

/-- An eviction keeps the queue in step exactly when it takes the end of a run. -/
theorem synced_evicted_iff (inv : RepInv s) (synced : s.Synced) (member : key ∈ s.priorityQueue)
    (evicted : Evicted s key room) :
    room.Synced ↔ ¬ s.PaysAt key.addr (key.nonce + 1) := by
  obtain ⟨floor, victim, at_, linked, held, paid⟩ := queued_spec inv synced member
  rw [synced_iff (inv.evicted evicted)]
  rw [synced_iff inv] at synced
  simp only [queuedOf_evicted evicted, listingOf_evicted at_ evicted, ← paid]
  have vacated := listing_vacate_iff (PendingTx.effectivePriorityFee · s.currentBaseFee) linked held
  rw [← listingOf_eq at_] at vacated
  refine Iff.trans ⟨fun same => ?_, fun same b => ?_⟩ vacated
  · have here := same key.addr
    rw [if_pos rfl, if_pos rfl, synced] at here
    exact here.symm
  · by_cases own : b = key.addr
    · subst own
      rw [if_pos rfl, if_pos rfl, synced]
      exact same.symm
    · rw [if_neg own, if_neg own]
      exact synced b

/-! ## Eviction and tracking together -/

theorem mem_priorityQueue_tracked (tracked : Tracked s tx s') (member : key ∈ s.priorityQueue) :
    key ∈ s'.priorityQueue := by
  cases tracked with
  | unfit => exact member
  | accepted => exact Finset.mem_insert_of_mem member

/-- The entry behind an emptied slot stays queued although its run is broken. -/
theorem not_synced_of_gap (inv : RepInv s) (synced : s.Synced) (member : key ∈ s.priorityQueue)
    (next : s.PaysAt key.addr (key.nonce + 1)) (evicted : Evicted s key room)
    (tracked : Tracked room tx s') (other : ¬ (key.addr = tx.sender ∧ key.nonce = tx.nonce)) :
    ¬ s'.Synced := by
  intro after
  obtain ⟨floor, victim, at_, linked, -, -⟩ := queued_spec inv synced member
  obtain ⟨follower, held, pays⟩ := next
  have follows : Linked (Pays s.currentBaseFee) floor (s.findTxByAddrAndNonce key.addr)
      (key.nonce + 1) :=
    linked_of_front (Nat.le_succ_of_le linked.1)
      (fun m above before => linked.2 m above (Nat.le_of_lt_succ before)) ⟨follower, held, pays⟩
  have queued := queued_of_linked inv synced at_ follows held
  have kept : ⟨follower.effectivePriorityFee s.currentBaseFee, key.addr, key.nonce + 1⟩ ∈
      room.priorityQueue := by
    rw [priorityQueue_evicted evicted]
    refine Finset.mem_erase.mpr ⟨fun same => ?_, queued⟩
    have position := congrArg PriorityKey.nonce same
    simp at position
  obtain ⟨floor', -, at', linked', -, -⟩ :=
    queued_spec ((inv.evicted evicted).tracked tracked) after
      (mem_priorityQueue_tracked tracked kept)
  have low : floor' ≤ floor := by
    have moved := confirmedNonceOf_tracked tracked ((confirmedNonceOf_evicted evicted).trans at_)
    obtain rfl := Option.some.inj (at'.symm.trans moved)
    split
    · exact Nat.min_le_left _ _
    · exact le_rfl
  obtain ⟨ghost, found, -⟩ := linked'.2 key.nonce (low.trans linked.1) (Nat.le_succ _)
  have empty : s'.findTxByAddrAndNonce key.addr key.nonce = none := by
    rw [findTx_tracked tracked, if_neg fun here => other here.2, findTx_evicted evicted,
      if_pos ⟨rfl, rfl⟩]
  rw [empty] at found
  cases found

/-- What is tracked at a position fits there again. -/
theorem fits_of_held (inv : RepInv s) {old : PendingTx}
    (held : s.findTxByAddrAndNonce tx.sender tx.nonce = some old) : s.Fits tx := by
  obtain ⟨q, known, found⟩ := findTx_eq_some_iff.mp held
  obtain ⟨above, inSlots⟩ := AccountQueue.txAt_eq_some_iff.mp found
  have index := (List.getElem?_eq_some_iff.mp inSlots).1
  have short := inv.consistent.bounded known
  rw [Fits, queueFor_of_known known]
  exact ⟨fun below => absurd above (Nat.not_le.mpr below), fun _ => by omega⟩

/-- A newcomer at the very position it evicts always leaves the queue in step. -/
theorem synced_of_replaced (inv : RepInv s) (synced : s.Synced) (member : key ∈ s.priorityQueue)
    (evicted : Evicted s key room) (tracked : Tracked room tx s') (sender : tx.sender = key.addr)
    (nonce : tx.nonce = key.nonce) (pays : Pays s.currentBaseFee tx) : s'.Synced := by
  obtain ⟨floor, victim, at_, linked, held, paid⟩ := queued_spec inv synced member
  have accounts := (synced_iff inv).mp synced
  have base := currentBaseFee_evicted evicted
  have fits : room.Fits tx :=
    (fits_evicted evicted).mpr (fits_of_held inv (sender ▸ nonce ▸ held))
  rw [synced_iff ((inv.evicted evicted).tracked tracked)]
  intro b
  cases tracked with
  | unfit unfit => exact absurd fits unfit
  | accepted =>
      refine (Eq.congr queuedOf_insert listingOf_accepted).mpr ?_
      by_cases own : b = tx.sender
      · have start : (room.queueFor tx).confirmedNonce = floor :=
          queueFor_confirmedNonce (sender ▸ (confirmedNonceOf_evicted evicted).trans at_)
        have views := findTx_evicted_update evicted (a := tx.sender)
        rw [if_pos sender] at views
        rw [if_pos own, if_pos own, start, views, queuedOf_evicted evicted,
          if_pos (own.trans sender), base, nonce, Nat.min_eq_left linked.1,
          Function.update_idem, own, sender, accounts, listingOf_eq at_, ← paid]
        have replaced := listing_replace (PendingTx.effectivePriorityFee · s.currentBaseFee)
          linked held pays
        exact replaced.symm
      · have elsewhere : b ≠ key.addr := sender ▸ own
        rw [if_neg own, if_neg own, queuedOf_evicted evicted, if_neg elsewhere,
          listingOf_evicted at_ evicted, if_neg elsewhere]
        exact accounts b

theorem extendsRun_evicted_of_ne (evicted : Evicted s key room) (other : tx.sender ≠ key.addr) :
    room.ExtendsRun tx ↔ s.ExtendsRun tx := by
  have views := findTx_evicted_update evicted (a := tx.sender)
  rw [if_neg other] at views
  rw [ExtendsRun, ExtendsRun, currentBaseFee_evicted evicted, (queueFor_evicted tx evicted).1,
    views]

/-- A newcomer that outbids everything queued cannot equal a queued fee. -/
theorem fee_ne_of_linked (inv : RepInv s) (synced : s.Synced)
    (first : firstKey s.priorityQueue = some key) (outbids : key.fee < s.effectivePriorityFee tx)
    (at_ : s.confirmedNonceOf a = some floor)
    (linked : Linked (Pays s.currentBaseFee) floor (s.findTxByAddrAndNonce a) n)
    {old : PendingTx} (held : s.findTxByAddrAndNonce a n = some old) :
    old.effectivePriorityFee s.currentBaseFee ≠ tx.effectivePriorityFee s.currentBaseFee := by
  intro same
  have cheap := PriorityKey.fee_le (firstKey_le first (queued_of_linked inv synced at_ linked held))
  rw [same] at cheap
  exact absurd cheap (Nat.not_le.mpr outbids)

/-- Next to the slot it empties, a newcomer that outbids everything queued can only go
    in front of the account. -/
theorem extendsRun_evicted_own_iff (inv : RepInv s) (synced : s.Synced)
    (first : firstKey s.priorityQueue = some key)
    (outbids : key.fee < s.effectivePriorityFee tx) (evicted : Evicted s key room)
    (sender : tx.sender = key.addr) (other : tx.nonce ≠ key.nonce) :
    room.ExtendsRun tx ↔
      tx.nonce < (s.queueFor tx).confirmedNonce ∧
        (tx.nonce + 1 = (s.queueFor tx).confirmedNonce ∨
          key.nonce = (s.queueFor tx).confirmedNonce) := by
  obtain ⟨floor, victim, at_, linked, -, -⟩ := queued_spec inv synced (firstKey_mem first)
  have start : (s.queueFor tx).confirmedNonce = floor := queueFor_confirmedNonce (sender ▸ at_)
  have views := findTx_evicted_update evicted (a := tx.sender)
  rw [if_pos sender] at views
  have pays : Pays s.currentBaseFee tx := Nat.lt_of_le_of_lt (Nat.zero_le _) outbids
  rw [ExtendsRun, currentBaseFee_evicted evicted, (queueFor_evicted tx evicted).1, views, start,
    Extends]
  have gap : ¬ Shows (Pays s.currentBaseFee)
      (Function.update (s.findTxByAddrAndNonce key.addr) key.nonce none) key.nonce := by
    simp [Shows]
  constructor
  · intro run
    rcases Nat.lt_or_ge tx.nonce floor with below | inside
    · refine ⟨below, (run.2.1 below).imp_right fun hidden => ?_⟩
      by_contra differ
      apply hidden
      rw [shows_update_of_ne none (Ne.symm differ)]
      exact linked.2 floor le_rfl linked.1
    · obtain ⟨front, rest⟩ := run.2.2 inside
      rcases Nat.lt_or_gt_of_ne other with before | after
      · have earlier : Linked (Pays s.currentBaseFee) floor (s.findTxByAddrAndNonce key.addr)
            tx.nonce := ⟨inside, fun m above le => linked.2 m above (le.trans before.le)⟩
        rcases rest with replaced | hidden
        · obtain ⟨old, held, -, same⟩ := replaced
          rw [Function.update_of_ne before.ne] at held
          exact absurd same (fee_ne_of_linked inv synced first outbids at_ earlier held)
        · rw [shows_update_of_ne none before.ne] at hidden
          exact absurd (earlier.2 tx.nonce inside le_rfl) hidden.1
      · exact absurd (front key.nonce linked.1 after) gap
  · intro cond
    refine ⟨pays, fun _ => cond.2.imp_right fun same => ?_, fun inside => by omega⟩
    rw [← same]
    exact gap

/-! ## The whole insertion -/

/-- With this key popped, the insertion changes no more than the rebuild would. -/
def EvictsInStep (s : MempoolInner) (tx : PendingTx) (worst : PriorityKey) : Prop :=
  (worst.addr = tx.sender ∧ worst.nonce = tx.nonce) ∨
    (¬ s.PaysAt worst.addr (worst.nonce + 1) ∧
      (s.Fits tx → tx.sender ≠ worst.addr → s.ExtendsRun tx) ∧
      (s.Fits tx → tx.sender = worst.addr →
        tx.nonce < (s.queueFor tx).confirmedNonce ∧
          (tx.nonce + 1 = (s.queueFor tx).confirmedNonce ∨
            worst.nonce = (s.queueFor tx).confirmedNonce)))

def InsertsInStep (s : MempoolInner) (tx : PendingTx) : Prop :=
  s.TurnedAway tx ∨ (¬ s.IsFull ∧ (s.Fits tx → s.ExtendsRun tx)) ∨
    (s.IsFull ∧ ∃ worst ∈ firstKey s.priorityQueue, s.EvictsInStep tx worst)

instance {worst : PriorityKey} : Decidable (s.EvictsInStep tx worst) :=
  inferInstanceAs (Decidable (_ ∨ _))

instance : Decidable (s.InsertsInStep tx) := inferInstanceAs (Decidable (_ ∨ _))

theorem synced_evicting_iff (inv : RepInv s) (synced : s.Synced)
    (first : firstKey s.priorityQueue = some key)
    (outbids : key.fee < s.effectivePriorityFee tx) (evicted : Evicted s key room)
    (tracked : Tracked room tx s') : s'.Synced ↔ s.EvictsInStep tx key := by
  have member := firstKey_mem first
  by_cases here : key.addr = tx.sender ∧ key.nonce = tx.nonce
  · have pays : Pays s.currentBaseFee tx := Nat.lt_of_le_of_lt (Nat.zero_le _) outbids
    refine ⟨fun _ => .inl here, fun _ => ?_⟩
    exact synced_of_replaced inv synced member evicted tracked here.1.symm here.2.symm pays
  · simp only [EvictsInStep, here, false_or]
    by_cases next : s.PaysAt key.addr (key.nonce + 1)
    · have broken := not_synced_of_gap inv synced member next evicted tracked here
      simp only [broken, next, not_true_eq_false, false_and]
    · have cleared := (synced_evicted_iff inv synced member evicted).mpr next
      rw [synced_tracked_iff (inv.evicted evicted) cleared tracked, fits_evicted evicted]
      simp only [next, not_false_eq_true, true_and]
      by_cases sender : tx.sender = key.addr
      · have other : tx.nonce ≠ key.nonce := fun same => here ⟨sender.symm, same.symm⟩
        rw [extendsRun_evicted_own_iff inv synced first outbids evicted sender other]
        simp only [sender, ne_eq, not_true_eq_false, false_imp_iff, implies_true, true_and,
          forall_const]
      · rw [extendsRun_evicted_of_ne evicted sender]
        simp only [ne_eq, sender, not_false_eq_true, forall_const, false_imp_iff, implies_true,
          and_true]

theorem synced_inserted_iff (inv : RepInv s) (synced : s.Synced)
    (inserted : s.insert tx = some s') : s'.Synced ↔ s.InsertsInStep tx := by
  cases insert_spec inserted with
  | turnedAway away => exact ⟨fun _ => .inl away, fun _ => synced⟩
  | roomy room tracked =>
      have passes : ¬ s.TurnedAway tx := not_turnedAway_of_room room
      rw [synced_tracked_iff inv synced tracked]
      simp only [InsertsInStep, passes, room, not_false_eq_true, true_and, false_and, or_false,
        false_or]
  | @evicting worst emptied s' full first outbids evicted tracked =>
      have passes : ¬ s.TurnedAway tx := not_turnedAway_of_outbids first outbids
      rw [synced_evicting_iff inv synced first outbids evicted tracked]
      simp only [InsertsInStep, passes, full, first, not_true_eq_false, false_and, true_and,
        false_or, Option.mem_some_iff, exists_eq_left']

theorem currentBaseFee_inserted (inserted : s.insert tx = some s') :
    s'.currentBaseFee = s.currentBaseFee := by
  cases insert_spec inserted with
  | turnedAway => rfl
  | roomy _ tracked => cases tracked <;> rfl
  | evicting _ _ _ evicted tracked =>
      rw [← currentBaseFee_evicted evicted]
      cases tracked <;> rfl

end MempoolInner

namespace MempoolTracker

open MempoolInner

theorem insert_agrees_with_rebuild_iff {config : TrackerConfig} {s₀ s s' : MempoolInner}
    {block : BlockUpdate} {tx : PendingTx} (reached : Reachable config s₀)
    (applied : s₀.applyBlock block = some s) (inserted : s.insert tx = some s') :
    s'.priorityQueue = rebuildPriorityQueue s.currentBaseFee s'.accountQueues ↔
      s.InsertsInStep tx := by
  obtain ⟨inv, base, queue⟩ := applied_spec reached applied
  have synced : s.Synced := by
    rw [Synced, base]
    exact queue
  rw [← synced_inserted_iff inv synced inserted, Synced, currentBaseFee_inserted inserted]

theorem insert_agrees_on_next_nonce :
    let s₀ := sampleRun 5 [.pendingTransaction (sampleTx 1 0 20 5)]
    let s := sampleRun 5 [.pendingTransaction (sampleTx 1 0 20 5), .newBlock ⟨[], 2, 0, 0⟩]
    s₀.applyBlock ⟨[], 2, 0, 0⟩ = some s ∧ ∃ s', s.insert (sampleTx 1 1 20 4) = some s' ∧
      s'.priorityQueue = rebuildPriorityQueue s.currentBaseFee s'.accountQueues := by
  intro s₀ s
  have applied : s₀.applyBlock ⟨[], 2, 0, 0⟩ = some s := rfl
  have inStep : s.InsertsInStep (sampleTx 1 1 20 4) := by decide
  obtain ⟨s', inserted⟩ := Option.isSome_iff_exists.mp
    (show (s.insert (sampleTx 1 1 20 4)).isSome by decide)
  exact ⟨applied, s', inserted,
    (insert_agrees_with_rebuild_iff (reachable_sampleRun 5 _) applied inserted).mpr inStep⟩

/-- A gapped arrival and a zero-tip arrival are both queued; a rebuild queues neither. -/
theorem insert_disagrees_on_gap :
    let s₀ := sampleRun 5 [.pendingTransaction (sampleTx 1 0 20 5)]
    let s := sampleRun 5 [.pendingTransaction (sampleTx 1 0 20 5), .newBlock ⟨[], 2, 0, 0⟩]
    (Reachable (sampleConfig 5) s₀ ∧ s₀.applyBlock ⟨[], 2, 0, 0⟩ = some s) ∧
    (∃ s', s.insert (sampleTx 1 7 20 5) = some s' ∧
      s'.priorityQueue = {⟨5, 1, 0⟩, ⟨5, 1, 7⟩} ∧
      rebuildPriorityQueue s.currentBaseFee s'.accountQueues = {⟨5, 1, 0⟩}) ∧
    ∃ s', s.insert (sampleTx 2 0 20 0) = some s' ∧
      s'.priorityQueue ≠ rebuildPriorityQueue s.currentBaseFee s'.accountQueues :=
  ⟨⟨reachable_sampleRun 5 _, rfl⟩, ⟨_, rfl, by decide, by decide⟩, _, rfl, by decide⟩

end MempoolTracker

end Bulkmail.Mempool
