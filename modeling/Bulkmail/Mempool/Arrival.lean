import Bulkmail.Mempool.Transitions

/-! # The order of arrival

A sender's floor is guessed from whichever of its transactions comes first and lowered
when an earlier nonce turns up.  As long as everything fits, the tracker holds exactly
what has arrived, and holds it in one way only: each account's slots begin and end with a
transaction.  So neither the order of arrival nor the split between the initial slice and
later events leaves a trace.
-/

namespace Bulkmail.Mempool

open Library

namespace AccountQueue

variable {q q' : AccountQueue} {tx : PendingTx} {a : Address} {txs txs' : List PendingTx}

theorem length_accept (q : AccountQueue) (tx : PendingTx) :
    (q.accept tx).slots.length =
      max (tx.nonce - min q.confirmedNonce tx.nonce + 1)
        (q.confirmedNonce - tx.nonce + q.slots.length) := by
  rw [accept, length_place, length_lowerTo]
  rfl

theorem isSome_txAt_accept {n : ℕ} (shown : n = tx.nonce ∨ (q.txAt n).isSome) :
    ((q.accept tx).txAt n).isSome := by
  rw [txAt_accept]
  split
  · rfl
  · rename_i other
    exact shown.resolve_left other

theorem tight_accept (tight : Tight q.confirmedNonce q.slots) :
    Tight (q.accept tx).confirmedNonce (q.accept tx).slots := by
  obtain ⟨n, ends, last⟩ := tight.last
  have length := length_accept q tx
  have floor : (q.accept tx).confirmedNonce = min q.confirmedNonce tx.nonce :=
    confirmedNonce_accept
  refine ⟨isSome_txAt_accept ?_, ?_⟩
  · rcases Nat.le_total tx.nonce q.confirmedNonce with below | above
    · exact .inl (by omega)
    · have same : (q.accept tx).confirmedNonce = q.confirmedNonce := by omega
      rw [same]
      exact .inr tight.first
  · rcases Nat.le_total n tx.nonce with beyond | inside
    · exact ⟨tx.nonce, by omega, isSome_txAt_accept (.inl rfl)⟩
    · exact ⟨n, by omega, isSome_txAt_accept (.inr last)⟩

theorem tight_accept_new :
    let q : AccountQueue := ⟨tx.nonce, []⟩
    Tight (q.accept tx).confirmedNonce (q.accept tx).slots := by
  intro q
  have length := length_accept q tx
  have floor : (q.accept tx).confirmedNonce = min q.confirmedNonce tx.nonce :=
    confirmedNonce_accept
  have empty : q.slots.length = 0 := rfl
  have here : q.confirmedNonce = tx.nonce := rfl
  exact ⟨isSome_txAt_accept (.inl (by omega)),
    ⟨tx.nonce, by omega, isSome_txAt_accept (.inl rfl)⟩⟩

/-- The queue holds the account's part of the transactions, and nothing empty around it. -/
structure Holds (q : AccountQueue) (a : Address) (txs : List PendingTx) : Prop where
  content : ∀ n tx, q.txAt n = some tx ↔ tx ∈ txs ∧ tx.sender = a ∧ tx.nonce = n
  tight : Tight q.confirmedNonce q.slots

theorem Holds.perm (holds : q.Holds a txs) (perm : txs.Perm txs') : q.Holds a txs' where
  content := fun n tx => by rw [holds.content, perm.mem_iff]
  tight := holds.tight

theorem Holds.eq (holds : q.Holds a txs) (holds' : q'.Holds a txs) : q = q' := by
  have same : ∀ n, q.txAt n = q'.txAt n := by
    intro n
    ext tx
    exact (holds.content n tx).trans (holds'.content n tx).symm
  obtain ⟨floor, slots⟩ := holds.tight.eq holds'.tight same
  cases q
  cases q'
  exact congrArg₂ AccountQueue.mk floor slots

theorem Holds.accept (holds : q.Holds tx.sender txs)
    (alone : ∀ other ∈ txs, other.sender = tx.sender → other.nonce ≠ tx.nonce) :
    (q.accept tx).Holds tx.sender (tx :: txs) := by
  refine ⟨fun n other => ?_, tight_accept holds.tight⟩
  rw [txAt_accept, List.mem_cons]
  split
  · rename_i here
    constructor
    · intro shown
      obtain rfl := Option.some.inj shown
      exact ⟨.inl rfl, rfl, here.symm⟩
    · intro listed
      obtain ⟨rfl | earlier, sender, nonce⟩ := listed
      · rfl
      · exact absurd (nonce.trans here) (alone other earlier sender)
  · rename_i elsewhere
    rw [holds.content]
    constructor
    · exact fun listed => ⟨.inr listed.1, listed.2⟩
    · intro listed
      obtain ⟨rfl | earlier, sender, nonce⟩ := listed
      · exact absurd nonce.symm elsewhere
      · exact ⟨earlier, sender, nonce⟩

theorem holds_accept_new (absent : ∀ other ∈ txs, other.sender ≠ tx.sender) :
    ((⟨tx.nonce, []⟩ : AccountQueue).accept tx).Holds tx.sender (tx :: txs) := by
  refine ⟨fun n other => ?_, tight_accept_new⟩
  rw [txAt_accept, txAt_new, List.mem_cons]
  constructor
  · intro shown
    obtain ⟨here, same⟩ := Option.ite_none_right_eq_some.mp shown
    obtain rfl := Option.some.inj same
    exact ⟨.inl rfl, rfl, here.symm⟩
  · intro listed
    obtain ⟨rfl | earlier, sender, nonce⟩ := listed
    · rw [if_pos nonce.symm]
    · exact absurd sender (absent other earlier)

theorem Holds.of_other (holds : q.Holds a txs) (other : tx.sender ≠ a) :
    q.Holds a (tx :: txs) := by
  refine ⟨fun n t => ?_, holds.tight⟩
  rw [holds.content, List.mem_cons]
  constructor
  · exact fun listed => ⟨.inr listed.1, listed.2⟩
  · intro listed
    obtain ⟨rfl | earlier, sender, nonce⟩ := listed
    · exact absurd sender other
    · exact ⟨earlier, sender, nonce⟩

end AccountQueue

/-- The transactions have distinct positions and fit into both capacities together. -/
structure Compatible (config : TrackerConfig) (txs : List PendingTx) : Prop where
  distinct : (txs.map fun tx => (tx.sender, tx.nonce)).Nodup
  few : txs.length ≤ config.globalCapacity
  narrow : ∀ tx ∈ txs, ∀ other ∈ txs, tx.sender = other.sender →
    other.nonce - tx.nonce < config.perAccountCapacity

namespace Compatible

variable {config : TrackerConfig} {tx : PendingTx} {txs txs' : List PendingTx}

theorem perm (compatible : Compatible config txs) (perm : txs.Perm txs') :
    Compatible config txs' where
  distinct := (perm.map _).nodup_iff.mp compatible.distinct
  few := perm.length_eq ▸ compatible.few
  narrow := fun tx member other member' =>
    compatible.narrow tx (perm.mem_iff.mpr member) other (perm.mem_iff.mpr member')

theorem sublist (compatible : Compatible config txs) (sub : txs'.Sublist txs) :
    Compatible config txs' where
  distinct := compatible.distinct.sublist (sub.map _)
  few := sub.length_le.trans compatible.few
  narrow := fun tx member other member' =>
    compatible.narrow tx (sub.subset member) other (sub.subset member')

theorem alone (compatible : Compatible config (tx :: txs)) :
    ∀ other ∈ txs, other.sender = tx.sender → other.nonce ≠ tx.nonce := by
  intro other member sender nonce
  have distinct := compatible.distinct
  rw [List.map_cons, List.nodup_cons] at distinct
  exact distinct.1 (List.mem_map.mpr ⟨other, member, by rw [sender, nonce]⟩)

end Compatible

namespace MempoolInner

variable {config : TrackerConfig} {s s' : MempoolInner} {tx : PendingTx}
variable {txs txs' earlier later : List PendingTx}

/-- The tracker is fresh except for the transactions, which it holds and lists. -/
structure Gathers (config : TrackerConfig) (txs : List PendingTx) (s : MempoolInner) : Prop where
  known : ∀ a q, s.accountQueues.lookup a = some q → q.Holds a txs
  unknown : ∀ a, s.accountQueues.lookup a = none → ∀ tx ∈ txs, tx.sender ≠ a
  eligible : s.baseFeeEligibility = (txs.map (·.eligibilityKey)).toFinset
  queued : s.priorityQueue = (txs.map (·.priorityKey config.initialBaseFee)).toFinset
  untouched : { s with accountQueues := ∅, baseFeeEligibility := ∅, priorityQueue := ∅ } =
    new config

namespace Gathers

theorem config_eq (gathers : Gathers config txs s) : s.config = config :=
  congrArg MempoolInner.config gathers.untouched

theorem currentBaseFee_eq (gathers : Gathers config txs s) :
    s.currentBaseFee = config.initialBaseFee :=
  congrArg MempoolInner.currentBaseFee gathers.untouched

theorem perm (gathers : Gathers config txs s) (perm : txs.Perm txs') : Gathers config txs' s where
  known := fun a q found => (gathers.known a q found).perm perm
  unknown := fun a absent tx member => gathers.unknown a absent tx (perm.mem_iff.mpr member)
  eligible := gathers.eligible.trans (List.toFinset_eq_of_perm _ _ (perm.map _))
  queued := gathers.queued.trans (List.toFinset_eq_of_perm _ _ (perm.map _))
  untouched := gathers.untouched

theorem lookup_of_lookup (gathers : Gathers config txs s) (gathers' : Gathers config txs s')
    {a : Address} {q : AccountQueue} (found : s.accountQueues.lookup a = some q) :
    s'.accountQueues.lookup a = some q := by
  have holds := gathers.known a q found
  obtain ⟨tx, first⟩ := Option.isSome_iff_exists.mp holds.tight.first
  obtain ⟨member, sender, -⟩ := (holds.content _ tx).mp first
  cases found' : s'.accountQueues.lookup a with
  | none => exact absurd sender (gathers'.unknown a found' tx member)
  | some q' => rw [holds.eq (gathers'.known a q' found')]

/-- What has been gathered determines the state. -/
theorem eq (gathers : Gathers config txs s) (gathers' : Gathers config txs s') : s = s' := by
  have queues : s.accountQueues = s'.accountQueues := by
    apply Finmap.ext_lookup
    intro a
    ext q
    exact ⟨gathers.lookup_of_lookup gathers', gathers'.lookup_of_lookup gathers⟩
  have eligible := gathers.eligible.trans gathers'.eligible.symm
  have queued := gathers.queued.trans gathers'.queued.symm
  have rest := gathers.untouched.trans gathers'.untouched.symm
  cases s
  cases s'
  simp only [mk.injEq] at queues eligible queued rest ⊢
  exact ⟨queues, eligible, queued, rest.2.2.2⟩

theorem not_isFull (gathers : Gathers config txs s) (compatible : Compatible config (tx :: txs)) :
    ¬ s.IsFull := by
  have listed : s.baseFeeEligibility.card ≤ txs.length := by
    rw [gathers.eligible]
    exact (List.toFinset_card_le _).trans_eq (List.length_map _)
  have few := compatible.few
  rw [List.length_cons] at few
  rw [IsFull, gathers.config_eq]
  omega

theorem fits (gathers : Gathers config txs s) (compatible : Compatible config (tx :: txs)) :
    s.Fits tx := by
  have newcomer : tx ∈ tx :: txs := List.mem_cons_self
  rw [Fits, gathers.config_eq]
  cases found : s.accountQueues.lookup tx.sender with
  | none =>
      have wide := compatible.narrow tx newcomer tx newcomer rfl
      simp only [queueFor, found, Option.getD_none]
      omega
  | some q =>
      rw [queueFor_of_known found]
      obtain ⟨content, ⟨first, n, ends, last⟩⟩ := gathers.known _ q found
      obtain ⟨low, shown⟩ := Option.isSome_iff_exists.mp first
      obtain ⟨high, shown'⟩ := Option.isSome_iff_exists.mp last
      obtain ⟨member, sender, lowest⟩ := (content _ low).mp shown
      obtain ⟨member', sender', highest⟩ := (content _ high).mp shown'
      have above := compatible.narrow low (.tail _ member) tx newcomer sender
      have below := compatible.narrow tx newcomer high (.tail _ member') sender'.symm
      constructor <;> intro side <;> omega

end Gathers

theorem track_of_fits (small : s.config.perAccountCapacity < u64Size) (fits : s.Fits tx) :
    s.track tx = some
      { s.setQueue tx.sender ((s.queueFor tx).accept tx) with
        baseFeeEligibility := Insert.insert tx.eligibilityKey s.baseFeeEligibility
        priorityQueue := Insert.insert (tx.priorityKey s.currentBaseFee) s.priorityQueue } := by
  cases tracked : s.track tx with
  | none =>
      simp only [track, AccountQueue.rebase, Option.map_eq_none_iff] at tracked
      split at tracked
      · rename_i below
        have needed := fits.1 below
        rw [checkedAdd_of_lt (needed.trans_lt small)] at tracked
        cases tracked
      · cases tracked
  | some s' =>
      cases track_spec tracked with
      | unfit unfit => exact absurd fits unfit
      | accepted => rfl

theorem Gathers.holds_accept (gathers : Gathers config txs s)
    (compatible : Compatible config (tx :: txs)) :
    ((s.queueFor tx).accept tx).Holds tx.sender (tx :: txs) := by
  cases found : s.accountQueues.lookup tx.sender with
  | none =>
      simp only [queueFor, found, Option.getD_none]
      exact AccountQueue.holds_accept_new (gathers.unknown _ found)
  | some q =>
      rw [queueFor_of_known found]
      exact (gathers.known _ q found).accept compatible.alone

/-- One more arrival is tracked next to the earlier ones. -/
theorem Gathers.step (small : config.perAccountCapacity < u64Size)
    (gathers : Gathers config txs s) (compatible : Compatible config (tx :: txs)) :
    ∃ s', s.insert tx = some s' ∧ Gathers config (tx :: txs) s' := by
  have tracked := track_of_fits (gathers.config_eq ▸ small) (gathers.fits compatible)
  have room : s.makeRoom tx = some (some s) := if_neg (gathers.not_isFull compatible)
  have inserted : s.insert tx = s.track tx := by
    rw [insert, room]
    rfl
  refine ⟨_, inserted.trans tracked, ?_⟩
  refine ⟨fun a q found => ?_, fun a absent other member => ?_, ?_, ?_, gathers.untouched⟩
  · rw [lookup_setQueue] at found
    split at found
    · rename_i same
      obtain rfl := Option.some.inj found
      exact same ▸ gathers.holds_accept compatible
    · rename_i other
      exact (gathers.known a q found).of_other (Ne.symm other)
  · rw [lookup_setQueue] at absent
    split at absent
    · cases absent
    · rename_i elsewhere
      obtain rfl | earlier := List.mem_cons.mp member
      · exact Ne.symm elsewhere
      · exact gathers.unknown a absent other earlier
  · rw [List.map_cons, List.toFinset_cons, ← gathers.eligible]
  · rw [List.map_cons, List.toFinset_cons, ← gathers.queued, gathers.currentBaseFee_eq]

/-- A whole list of arrivals is. -/
theorem Gathers.run (small : config.perAccountCapacity < u64Size)
    (gathers : Gathers config earlier s) (compatible : Compatible config (later ++ earlier)) :
    ∃ s', runs MempoolInner.insert s later = some s' ∧ Gathers config (later ++ earlier) s' := by
  induction later generalizing s earlier with
  | nil => exact ⟨s, rfl, gathers⟩
  | cons tx rest ih =>
      have moved : (rest ++ tx :: earlier).Perm (tx :: rest ++ earlier) := List.perm_middle
      have first : Compatible config (tx :: earlier) :=
        compatible.sublist (.cons_cons tx (List.sublist_append_right rest earlier))
      obtain ⟨next, taken, gathered⟩ := gathers.step small first
      obtain ⟨s', ran, all⟩ := ih gathered (compatible.perm moved.symm)
      refine ⟨s', ?_, all.perm moved⟩
      rw [runs, taken]
      exact ran

end MempoolInner

namespace MempoolTracker

open MempoolInner

variable {config : TrackerConfig} {s : MempoolInner} {tx : PendingTx}

theorem classified_of_findTx (found : s.findTxByAddrAndNonce tx.sender tx.nonce = some tx) :
    ∃ classification, s.classifyTransaction tx = some classification := by
  obtain ⟨q, known, held⟩ := findTx_eq_some_iff.mp found
  have above := (AccountQueue.txAt_eq_some_iff.mp held).1
  simp only [classifyTransaction, known, checkedSub_of_le above, Option.map_some]
  exact ⟨_, rfl⟩

end MempoolTracker

end Bulkmail.Mempool
