import Bulkmail.Mempool.Incremental
import Bulkmail.Mempool.Panics

/-! # What an insertion does

Seen through lookups, an insertion fills its own position and empties at most one other,
the one whose key it pops.  The rest of the module is about insertions that ought to change
little: one that is rejected, one that replaces a tracked transaction and one that repeats
it.  The eviction is done before the per-account check and does not ask whether the
newcomer takes a slot at all, so neither of these is free of side effects.
-/

namespace Bulkmail.Mempool

open Library

namespace AccountQueue

/-- Placing a transaction where it already is changes nothing. -/
theorem accept_of_held {q : AccountQueue} {tx : PendingTx} (held : q.txAt tx.nonce = some tx) :
    q.accept tx = q := by
  obtain ⟨above, found⟩ := txAt_eq_some_iff.mp held
  have inside := (List.getElem?_eq_some_iff.mp found).1
  apply eq_of_view
  · exact confirmedNonce_accept.trans (Nat.min_eq_left above)
  · rw [windowEnd_accept, windowEnd]
    omega
  · intro n
    rw [txAt_accept]
    split
    · rename_i same
      rw [same, held]
    · rfl

end AccountQueue

namespace MempoolInner

variable {s s' room : MempoolInner} {tx old : PendingTx} {key : PriorityKey} {a : Address} {n : ℕ}

/-! ## The frame -/

/-- The position whose key the insertion may pop. -/
def PopsAt (s : MempoolInner) (a : Address) (n : ℕ) : Prop :=
  s.IsFull ∧ ∃ worst ∈ firstKey s.priorityQueue, a = worst.addr ∧ n = worst.nonce

instance : Decidable (s.PopsAt a n) := inferInstanceAs (Decidable (_ ∧ _))

theorem findTx_inserted_of_ne (inserted : s.insert tx = some s')
    (other : ¬ (a = tx.sender ∧ n = tx.nonce)) (kept : ¬ s.PopsAt a n) :
    s'.findTxByAddrAndNonce a n = s.findTxByAddrAndNonce a n := by
  cases insert_spec inserted with
  | turnedAway => rfl
  | roomy _ tracked => rw [findTx_tracked tracked, if_neg fun here => other here.2]
  | @evicting worst emptied s' full first outbids evicted tracked =>
      have elsewhere : ¬ (a = worst.addr ∧ n = worst.nonce) :=
        fun here => kept ⟨full, worst, first, here⟩
      rw [findTx_tracked tracked, if_neg fun here => other here.2, findTx_evicted evicted,
        if_neg elsewhere]

theorem findTx_inserted_self (inserted : s.insert tx = some s') (passes : ¬ s.TurnedAway tx)
    (fits : s.Fits tx) : s'.findTxByAddrAndNonce tx.sender tx.nonce = some tx := by
  cases insert_spec inserted with
  | turnedAway away => exact absurd away passes
  | roomy _ tracked => rw [findTx_tracked tracked, if_pos ⟨fits, rfl, rfl⟩]
  | evicting _ _ _ evicted tracked =>
      rw [findTx_tracked tracked, if_pos ⟨(fits_evicted evicted).mpr fits, rfl, rfl⟩]

/-- A key that the newcomer outbids does not come back with it. -/
theorem notMem_priorityQueue_evicting (outbids : key.fee < s.effectivePriorityFee tx)
    (evicted : Evicted s key room) (tracked : Tracked room tx s') : key ∉ s'.priorityQueue := by
  have popped : key ∉ room.priorityQueue := by
    rw [priorityQueue_evicted evicted]
    exact Finset.notMem_erase key _
  cases tracked with
  | unfit => exact popped
  | accepted =>
      rw [currentBaseFee_evicted evicted]
      intro member
      cases Finset.mem_insert.mp member with
      | inl own =>
          rw [own] at outbids
          exact lt_irrefl _ outbids
      | inr kept => exact popped kept

/-! ## Rejections -/

/-- What does not get its slot leaves no trace. -/
def RejectsCleanly (s : MempoolInner) (tx : PendingTx) (s' : MempoolInner) : Prop :=
  s'.findTxByAddrAndNonce tx.sender tx.nonce ≠ some tx → s' = s

theorem setQueue_queueFor (known : tx.sender ∈ s.accountQueues) :
    s.setQueue tx.sender (s.queueFor tx) = s := by
  obtain ⟨q, found⟩ := Finmap.mem_iff.mp known
  rw [queueFor_of_known found, setQueue, insert_of_lookup found]

theorem findTx_of_unfit (inv : RepInv s) (unfit : ¬ s.Fits tx) :
    s.findTxByAddrAndNonce tx.sender tx.nonce = none := by
  cases held : s.findTxByAddrAndNonce tx.sender tx.nonce with
  | none => rfl
  | some old => exact absurd (fits_of_held inv held) unfit

theorem rejectsCleanly_tracked_iff (inv : RepInv s) (tracked : Tracked s tx s') :
    RejectsCleanly s tx s' ↔ s.Fits tx ∨ tx.sender ∈ s.accountQueues := by
  have view := findTx_tracked tracked (a := tx.sender) (n := tx.nonce)
  cases tracked with
  | accepted fits =>
      rw [if_pos ⟨fits, rfl, rfl⟩] at view
      exact ⟨fun _ => .inl fits, fun _ missing => absurd view missing⟩
  | unfit unfit =>
      rw [if_neg fun both => unfit both.1, findTx_of_unfit inv unfit] at view
      constructor
      · intro clean
        have same := clean (by simp [view])
        refine .inr ?_
        rw [← same]
        exact Finmap.mem_insert.mpr (.inl rfl)
      · intro known _
        exact setQueue_queueFor (known.resolve_left unfit)

/-- Once a key is popped, only an accepted newcomer is a reason for the change. -/
theorem rejectsCleanly_evicting_iff (inv : RepInv s) (member : key ∈ s.priorityQueue)
    (outbids : key.fee < s.effectivePriorityFee tx) (evicted : Evicted s key room)
    (tracked : Tracked room tx s') : RejectsCleanly s tx s' ↔ s.Fits tx := by
  rw [← fits_evicted evicted]
  have gone := notMem_priorityQueue_evicting outbids evicted tracked
  have view := findTx_tracked tracked (a := tx.sender) (n := tx.nonce)
  cases tracked with
  | accepted fits =>
      rw [if_pos ⟨fits, rfl, rfl⟩] at view
      exact ⟨fun _ => fits, fun _ missing => absurd view missing⟩
  | unfit unfit =>
      rw [if_neg fun both => unfit both.1, findTx_of_unfit (inv.evicted evicted) unfit] at view
      refine ⟨fun clean => ?_, fun fits => absurd fits unfit⟩
      have same := clean (by simp [view])
      rw [same] at gone
      exact absurd member gone

/-- The newcomer is turned away by the first check, or it gets past the second, or there is
    nothing to evict and no account to create. -/
def LeavesNoTrace (s : MempoolInner) (tx : PendingTx) : Prop :=
  s.TurnedAway tx ∨ s.Fits tx ∨ (¬ s.IsFull ∧ tx.sender ∈ s.accountQueues)

instance : Decidable (s.LeavesNoTrace tx) := inferInstanceAs (Decidable (_ ∨ _))

theorem rejectsCleanly_inserted_iff (inv : RepInv s) (inserted : s.insert tx = some s') :
    RejectsCleanly s tx s' ↔ s.LeavesNoTrace tx := by
  cases insert_spec inserted with
  | turnedAway away => exact ⟨fun _ => .inl away, fun _ _ => rfl⟩
  | roomy room tracked =>
      have passes : ¬ s.TurnedAway tx := not_turnedAway_of_room room
      rw [rejectsCleanly_tracked_iff inv tracked]
      simp only [LeavesNoTrace, passes, room, not_false_eq_true, true_and, false_or]
  | @evicting worst emptied s' full first outbids evicted tracked =>
      have passes : ¬ s.TurnedAway tx := not_turnedAway_of_outbids first outbids
      rw [rejectsCleanly_evicting_iff inv (firstKey_mem first) outbids evicted tracked]
      simp only [LeavesNoTrace, passes, full, not_true_eq_false, false_and, false_or, or_false]

/-! ## Replacements and repetitions -/

/-- An arrival at an occupied position touches nothing else, and if it repeats what is there
    it touches nothing at all. -/
structure StaysLocal (s : MempoolInner) (tx : PendingTx) (s' : MempoolInner) : Prop where
  others : ∀ a n other, ¬ (a = tx.sender ∧ n = tx.nonce) →
    s.findTxByAddrAndNonce a n = some other → s'.findTxByAddrAndNonce a n = some other
  count : s'.occupiedSlots = s.occupiedSlots
  repeated : s.findTxByAddrAndNonce tx.sender tx.nonce = some tx →
    s'.accountQueues = s.accountQueues ∧ s'.baseFeeEligibility = s.baseFeeEligibility ∧
      s'.priorityQueue = s.priorityQueue

theorem staysLocal_tracked_iff (inv : RepInv s)
    (held : s.findTxByAddrAndNonce tx.sender tx.nonce = some old) (tracked : Tracked s tx s') :
    StaysLocal s tx s' ↔ (s.findTxByAddrAndNonce tx.sender tx.nonce = some tx →
      tx.priorityKey s.currentBaseFee ∈ s.priorityQueue) := by
  have views : ∀ a n, ¬ (a = tx.sender ∧ n = tx.nonce) →
      s'.findTxByAddrAndNonce a n = s.findTxByAddrAndNonce a n := by
    intro a n other
    rw [findTx_tracked tracked, if_neg fun here => other here.2]
  have count : s'.occupiedSlots = s.occupiedSlots := by
    have added := occupiedSlots_tracked tracked
    rwa [if_neg fun both => by simp [held] at both, Nat.add_zero] at added
  cases tracked with
  | unfit unfit => exact absurd (fits_of_held inv held) unfit
  | accepted fits =>
      constructor
      · intro stays same
        have queue := (stays.repeated same).2.2
        rw [← queue]
        exact Finset.mem_insert_self _ _
      · intro queued
        refine ⟨fun a n other elsewhere found => (views a n elsewhere).trans found, count, ?_⟩
        intro same
        obtain ⟨q, known, found⟩ := findTx_eq_some_iff.mp same
        refine ⟨?_, ?_, ?_⟩
        · change s.accountQueues.insert tx.sender ((s.queueFor tx).accept tx) = s.accountQueues
          rw [queueFor_of_known known, AccountQueue.accept_of_held found, insert_of_lookup known]
        · exact Finset.insert_eq_of_mem (inv.consistent.eligible known found)
        · exact Finset.insert_eq_of_mem (queued same)

/-- What is emptied at the arrival's own position is filled again; elsewhere nothing may be
    emptied. -/
theorem occupiedSlots_replacing (fits : s.Fits tx)
    (held : s.findTxByAddrAndNonce tx.sender tx.nonce = some old) (evicted : Evicted s key room)
    (tracked : Tracked room tx s')
    (harmless : (key.addr = tx.sender ∧ key.nonce = tx.nonce) ∨
      s.findTxByAddrAndNonce key.addr key.nonce = none) :
    s'.occupiedSlots = s.occupiedSlots := by
  have freed := occupiedSlots_evicted evicted
  have added := occupiedSlots_tracked tracked
  have here := findTx_evicted evicted (a := tx.sender) (n := tx.nonce)
  simp only [(fits_evicted evicted).mpr fits, true_and] at added
  by_cases own : key.addr = tx.sender ∧ key.nonce = tx.nonce
  · rw [if_pos ⟨own.1.symm, own.2.symm⟩] at here
    rw [own.1, own.2, held, if_neg (Option.some_ne_none old)] at freed
    rw [here, if_pos rfl] at added
    omega
  · rw [if_neg fun same => own ⟨same.1.symm, same.2.symm⟩, held] at here
    rw [if_pos (harmless.resolve_left own)] at freed
    rw [here, if_neg (Option.some_ne_none old)] at added
    omega

/-- A popped key is gone from the queue, so the arrival must not be a repetition; and its
    slot must be the arrival's own or empty. -/
theorem staysLocal_evicting_iff (inv : RepInv s) (member : key ∈ s.priorityQueue)
    (outbids : key.fee < s.effectivePriorityFee tx)
    (held : s.findTxByAddrAndNonce tx.sender tx.nonce = some old) (evicted : Evicted s key room)
    (tracked : Tracked room tx s') :
    StaysLocal s tx s' ↔ s.findTxByAddrAndNonce tx.sender tx.nonce ≠ some tx ∧
      ((key.addr = tx.sender ∧ key.nonce = tx.nonce) ∨
        s.findTxByAddrAndNonce key.addr key.nonce = none) := by
  have views : ∀ a n, ¬ (a = tx.sender ∧ n = tx.nonce) → s'.findTxByAddrAndNonce a n =
      if a = key.addr ∧ n = key.nonce then none else s.findTxByAddrAndNonce a n := by
    intro a n other
    rw [findTx_tracked tracked, if_neg fun here => other here.2, findTx_evicted evicted]
  constructor
  · intro stays
    constructor
    · intro same
      have gone := notMem_priorityQueue_evicting outbids evicted tracked
      rw [(stays.repeated same).2.2] at gone
      exact gone member
    · by_contra neither
      obtain ⟨elsewhere, full⟩ := not_or.mp neither
      obtain ⟨victim, found⟩ := Option.ne_none_iff_exists'.mp full
      have kept := stays.others _ _ victim elsewhere found
      rw [views _ _ elsewhere, if_pos ⟨rfl, rfl⟩] at kept
      cases kept
  · intro conditions
    obtain ⟨differs, harmless⟩ := conditions
    constructor
    · intro a n other elsewhere found
      rw [views a n elsewhere, if_neg, found]
      intro here
      cases harmless with
      | inl own => exact elsewhere ⟨here.1.trans own.1, here.2.trans own.2⟩
      | inr empty =>
          rw [here.1, here.2, empty] at found
          cases found
    · exact occupiedSlots_replacing (fits_of_held inv held) held evicted tracked harmless
    · exact fun same => absurd same differs

/-- The arrival is turned away, or it has room and does not bring back a key that a rebuild
    has dropped, or it is no repetition and the key it pops is its own or names nothing. -/
def ReplacesLocally (s : MempoolInner) (tx : PendingTx) : Prop :=
  s.TurnedAway tx ∨
  (¬ s.IsFull ∧ (s.findTxByAddrAndNonce tx.sender tx.nonce = some tx →
    tx.priorityKey s.currentBaseFee ∈ s.priorityQueue)) ∨
  (s.IsFull ∧ ∃ worst ∈ firstKey s.priorityQueue,
    s.findTxByAddrAndNonce tx.sender tx.nonce ≠ some tx ∧
      ((worst.addr = tx.sender ∧ worst.nonce = tx.nonce) ∨
        s.findTxByAddrAndNonce worst.addr worst.nonce = none))

instance : Decidable (s.ReplacesLocally tx) := inferInstanceAs (Decidable (_ ∨ _))

theorem staysLocal_inserted_iff (inv : RepInv s)
    (held : s.findTxByAddrAndNonce tx.sender tx.nonce = some old)
    (inserted : s.insert tx = some s') : StaysLocal s tx s' ↔ s.ReplacesLocally tx := by
  cases insert_spec inserted with
  | turnedAway away =>
      refine ⟨fun _ => .inl away, fun _ => ⟨fun _ _ _ _ found => found, rfl, fun _ => ?_⟩⟩
      exact ⟨rfl, rfl, rfl⟩
  | roomy room tracked =>
      have passes : ¬ s.TurnedAway tx := not_turnedAway_of_room room
      rw [staysLocal_tracked_iff inv held tracked]
      simp only [ReplacesLocally, passes, room, not_false_eq_true, true_and, false_and, or_false,
        false_or]
  | @evicting worst emptied s' full first outbids evicted tracked =>
      have passes : ¬ s.TurnedAway tx := not_turnedAway_of_outbids first outbids
      rw [staysLocal_evicting_iff inv (firstKey_mem first) outbids held evicted tracked]
      simp only [ReplacesLocally, passes, full, first, not_true_eq_false, false_and, true_and,
        false_or, Option.mem_some_iff, exists_eq_left']

end MempoolInner

namespace MempoolTracker

open MempoolInner

variable {config : TrackerConfig} {s s' : MempoolInner} {tx old : PendingTx}

/-- An insertion returns (for capacities below `2 ^ 55` also where it grows a vector, by
    `insertChecked_eq`), and lookups change at its own position and at most where it pops a
    key; what passes both capacity checks is found at its position. -/
theorem insert_frame (reached : ReachableWithin config s) (fits : tx.NonceFits) :
    ∃ s', s.insert tx = some s' ∧
      (∀ a n, ¬ (a = tx.sender ∧ n = tx.nonce) → ¬ s.PopsAt a n →
        s'.findTxByAddrAndNonce a n = s.findTxByAddrAndNonce a n) ∧
      (¬ s.TurnedAway tx → s.Fits tx →
        s'.findTxByAddrAndNonce tx.sender tx.nonce = some tx) := by
  obtain ⟨s', inserted⟩ := exists_insert reached.reachable.repInv.1 reached.narrow fits
  refine ⟨s', inserted, fun a n other kept => ?_, fun passes inAccount => ?_⟩
  · exact findTx_inserted_of_ne inserted other kept
  · exact findTx_inserted_self inserted passes inAccount

/-- An eviction in the newcomer's own account, followed by a shift of its slots. -/
theorem insert_frame_of_shift :
    let events := [.pendingTransaction (sampleTx 1 6 20 5), .pendingTransaction (sampleTx 1 5 20 4)]
    let s := sampleRun 2 events
    ∃ s', s.insert (sampleTx 1 3 20 9) = some s' ∧ s.PopsAt 1 6 ∧
      s'.findTxByAddrAndNonce 1 5 = s.findTxByAddrAndNonce 1 5 ∧
      s'.findTxByAddrAndNonce 1 3 = some (sampleTx 1 3 20 9) := by
  intro events s
  have reached : ReachableWithin (sampleConfig 2) s :=
    ⟨[], .new (sampleConfig 2), events, by decide, by decide, rfl, rfl⟩
  have fits : (sampleTx 1 3 20 9).NonceFits := by decide
  obtain ⟨s', inserted, frame, found⟩ := insert_frame reached fits
  refine ⟨s', inserted, by decide, ?_, ?_⟩
  · exact frame 1 5 (by decide) (by decide)
  · exact found (by decide) (by decide)

theorem rejectsCleanly_iff (reached : Reachable config s) (inserted : s.insert tx = some s') :
    RejectsCleanly s tx s' ↔ s.LeavesNoTrace tx :=
  rejectsCleanly_inserted_iff reached.repInv.1 inserted

theorem rejectsCleanly_with_room :
    let s := sampleRun 5 [.pendingTransaction (sampleTx 1 0 20 5)]
    ∃ s', s.insert (sampleTx 1 1000 20 9) = some s' ∧
      s'.findTxByAddrAndNonce 1 1000 ≠ some (sampleTx 1 1000 20 9) ∧
      RejectsCleanly s (sampleTx 1 1000 20 9) s' := by
  intro s
  obtain ⟨s', inserted⟩ := Option.isSome_iff_exists.mp
    (show (s.insert (sampleTx 1 1000 20 9)).isSome by decide)
  have missing : (s.insert (sampleTx 1 1000 20 9)).map (·.findTxByAddrAndNonce 1 1000) =
      some none := by decide
  rw [inserted] at missing
  refine ⟨s', inserted, by simp [Option.some.inj missing], ?_⟩
  exact (rejectsCleanly_iff (reachable_sampleRun 5 _) inserted).mpr (by decide)

/-- A newcomer beyond its account's capacity evicts a tracked transaction first. -/
theorem rejection_evicts :
    let s := sampleRun 1 [.pendingTransaction (sampleTx 1 0 20 5)]
    Reachable (sampleConfig 1) s ∧ ∃ s', s.insert (sampleTx 1 1000 20 9) = some s' ∧
      s'.findTxByAddrAndNonce 1 1000 = none ∧
      s.findTxByAddrAndNonce 1 0 = some (sampleTx 1 0 20 5) ∧
      s'.findTxByAddrAndNonce 1 0 = none ∧ ¬ RejectsCleanly s (sampleTx 1 1000 20 9) s' := by
  intro s
  refine ⟨reachable_sampleRun 1 _, _, rfl, by decide, by decide, by decide, fun clean => ?_⟩
  have same := congrArg (·.findTxByAddrAndNonce 1 0) (clean (by decide))
  exact absurd same (by decide)

theorem staysLocal_iff (reached : Reachable config s)
    (occupied : s.findTxByAddrAndNonce tx.sender tx.nonce = some old)
    (inserted : s.insert tx = some s') : StaysLocal s tx s' ↔ s.ReplacesLocally tx :=
  staysLocal_inserted_iff reached.repInv.1 occupied inserted

theorem staysLocal_with_room :
    let s := sampleRun 5 [.pendingTransaction (sampleTx 1 0 20 5)]
    ∃ s', s.insert (sampleTx 1 0 20 7) = some s' ∧ StaysLocal s (sampleTx 1 0 20 7) s' := by
  intro s
  obtain ⟨s', inserted⟩ := Option.isSome_iff_exists.mp
    (show (s.insert (sampleTx 1 0 20 7)).isSome by decide)
  have occupied : s.findTxByAddrAndNonce 1 0 = some (sampleTx 1 0 20 5) := by decide
  exact ⟨s', inserted, (staysLocal_iff (reachable_sampleRun 5 _) occupied inserted).mpr (by decide)⟩

/-- With the index full, a fee bump of one sender evicts another; and a repeated announcement
    brings back a key that the last block had dropped behind a gap. -/
theorem replacement_evicts_other :
    let s := sampleRun 2 [.pendingTransaction (sampleTx 1 0 20 5),
      .pendingTransaction (sampleTx 2 0 20 1)]
    let gapped := sampleRun 5 [.pendingTransaction (sampleTx 1 0 20 5),
      .pendingTransaction (sampleTx 1 2 20 5), .newBlock ⟨[], 2, 0, 0⟩]
    (Reachable (sampleConfig 2) s ∧ s.findTxByAddrAndNonce 2 0 = some (sampleTx 2 0 20 1) ∧
      ∃ s', s.insert (sampleTx 2 0 20 9) = some s' ∧ s.occupiedSlots = 2 ∧ s'.occupiedSlots = 1 ∧
        ¬ StaysLocal s (sampleTx 2 0 20 9) s') ∧
    Reachable (sampleConfig 5) gapped ∧
      gapped.findTxByAddrAndNonce 1 2 = some (sampleTx 1 2 20 5) ∧
      ∃ s', gapped.insert (sampleTx 1 2 20 5) = some s' ∧
        gapped.priorityQueue = {⟨5, 1, 0⟩} ∧ s'.priorityQueue = {⟨5, 1, 0⟩, ⟨5, 1, 2⟩} ∧
        ¬ StaysLocal gapped (sampleTx 1 2 20 5) s' := by
  intro s gapped
  refine ⟨⟨reachable_sampleRun 2 _, by decide, _, rfl, by decide, by decide, fun stays => ?_⟩,
    reachable_sampleRun 5 _, by decide, _, rfl, by decide, by decide, fun stays => ?_⟩
  · exact absurd stays.count (by decide)
  · exact absurd (stays.repeated (by decide)).2.2 (by decide)

end MempoolTracker

end Bulkmail.Mempool
