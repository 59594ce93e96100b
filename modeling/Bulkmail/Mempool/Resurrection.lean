import Bulkmail.Mempool.View

/-! # Announcements of mined transactions

A block moves an account's confirmed nonce past what it includes, but `insert` moves it
down again for any nonce below it.  A late announcement of a mined transaction takes
that branch, and only the two capacity checks stand in its way.
-/

namespace Bulkmail.Mempool

open Library

namespace MempoolInner

variable {s s' : MempoolInner} {tx : PendingTx} {a : Address} {n floor : ℕ}

/-- Nothing at or below the nonce is tracked and the account's floor is above it. -/
def Gone (a : Address) (n : ℕ) (s : MempoolInner) : Prop :=
  (∀ m ≤ n, s.findTxByAddrAndNonce a m = none) ∧
    ∃ floor, s.confirmedNonceOf a = some floor ∧ n < floor

theorem gone_iff (at_ : s.confirmedNonceOf a = some floor) : Gone a n s ↔ n < floor := by
  constructor
  · rintro ⟨-, floor', same, above⟩
    rw [at_] at same
    obtain rfl := Option.some.inj same
    exact above
  · intro above
    exact ⟨fun m le => findTx_below at_ (Nat.lt_of_le_of_lt le above), floor, at_, above⟩

theorem gone_tracked_iff (gone : Gone a n s) (tracked : Tracked s tx s') :
    Gone a n s' ↔ (tx.sender = a → tx.nonce ≤ n → ¬ s.Fits tx) := by
  obtain ⟨-, floor, at_, above⟩ := gone
  rw [gone_iff (confirmedNonceOf_tracked tracked at_)]
  split
  · rename_i both
    constructor
    · intro below _ le
      omega
    · intro late
      have high := Nat.not_le.mp fun le => late both.1 le both.2
      omega
  · rename_i harmless
    exact ⟨fun _ own _ fits => harmless ⟨own, fits⟩, fun _ => above⟩

/-- The insertion does not let a nonce the block has passed back in. -/
def KeepsOut (a : Address) (n : ℕ) (s : MempoolInner) (tx : PendingTx) : Prop :=
  tx.sender = a → tx.nonce ≤ n → s.TurnedAway tx ∨ ¬ s.Fits tx

instance : Decidable (KeepsOut a n s tx) := inferInstanceAs (Decidable (_ → _))

theorem gone_inserted_iff (gone : Gone a n s) (inserted : s.insert tx = some s') :
    Gone a n s' ↔ KeepsOut a n s tx := by
  cases insert_spec inserted with
  | turnedAway away => exact ⟨fun _ _ _ => .inl away, fun _ => gone⟩
  | roomy room tracked =>
      rw [gone_tracked_iff gone tracked]
      have passes : ¬ s.TurnedAway tx := not_turnedAway_of_room room
      simp only [KeepsOut, passes, false_or]
  | @evicting worst emptied s' full first outbids evicted tracked =>
      have still : Gone a n emptied := by
        obtain ⟨-, floor, at_, above⟩ := gone
        exact (gone_iff ((confirmedNonceOf_evicted evicted).trans at_)).mpr above
      have passes : ¬ s.TurnedAway tx := not_turnedAway_of_outbids first outbids
      rw [gone_tracked_iff still tracked, fits_evicted evicted]
      simp only [KeepsOut, passes, false_or]

theorem gone_applied {block : BlockUpdate} (gone : Gone a n s)
    (applied : s.applyBlock block = some s') : Gone a n s' := by
  obtain ⟨-, floor, at_, above⟩ := gone
  have final := confirmedNonceOf_applied applied at_
  exact (gone_iff final).mpr (lt_max_of_lt_left above)

theorem gone_after_inclusion {block : BlockUpdate} (known : tx.sender ∈ s.accountQueues)
    (included : tx ∈ block.includedTxs) (applied : s.applyBlock block = some s') :
    Gone tx.sender tx.nonce s' := by
  obtain ⟨q, found⟩ := Finmap.mem_iff.mp known
  have at_ : s.confirmedNonceOf tx.sender = some q.confirmedNonce := by
    rw [confirmedNonceOf, found, Option.map_some]
  have final := confirmedNonceOf_applied applied at_
  have passed := lt_ceiling_iff.mpr ⟨tx, included, rfl, le_rfl⟩
  exact (gone_iff final).mpr (lt_max_of_lt_right passed)

end MempoolInner

namespace MempoolTracker

open MempoolInner

/-- The condition on the tracker's events: blocks always meet it. -/
def KeepsMinedOut (a : Address) (n : ℕ) (s : MempoolInner) : MempoolEvent → Prop
  | .pendingTransaction tx => KeepsOut a n s tx
  | .newBlock _ => True

instance (a : Address) (n : ℕ) (s : MempoolInner) : ∀ event, Decidable (KeepsMinedOut a n s event)
  | .pendingTransaction tx => inferInstanceAs (Decidable (KeepsOut a n s tx))
  | .newBlock _ => inferInstanceAs (Decidable True)

theorem mined_stays_gone_iff {s s₁ t : MempoolInner} {block : BlockUpdate} {tx : PendingTx}
    {events : List MempoolEvent} (known : tx.sender ∈ s.accountQueues)
    (included : tx ∈ block.includedTxs) (applied : s.applyBlock block = some s₁)
    (ran : runs step s₁ events = some t) :
    Throughout step (Gone tx.sender tx.nonce) s₁ events ↔
      EachStep step (KeepsMinedOut tx.sender tx.nonce) s₁ events := by
  have always : ∀ s event s', True → step s event = some s' → True := fun _ _ _ _ _ => trivial
  refine throughout_iff_eachStep always (fun s event s' _ gone taken => ?_) trivial
    (gone_after_inclusion known included applied) ran
  cases event with
  | pendingTransaction tx' => exact gone_inserted_iff gone taken
  | newBlock block' => exact ⟨fun _ => trivial, fun _ => gone_applied gone taken⟩

/-- A full account turns the late announcement away. -/
theorem mined_stays_gone_when_unfit :
    let tx := sampleTx 1 0 20 5
    let s := sampleRun 5 [.pendingTransaction tx]
    let s₁ := sampleRun 5 [.pendingTransaction tx, .newBlock ⟨[tx], 0, 0, 0⟩]
    let events := [.pendingTransaction (sampleTx 1 10 20 5), .pendingTransaction tx]
    s.applyBlock ⟨[tx], 0, 0, 0⟩ = some s₁ ∧ ∃ t, runs step s₁ events = some t ∧
      Throughout step (Gone 1 0) s₁ events := by
  intro tx s s₁ events
  have applied : s.applyBlock ⟨[tx], 0, 0, 0⟩ = some s₁ := rfl
  have known : tx.sender ∈ s.accountQueues := by decide
  have included : tx ∈ [tx] := List.mem_cons_self
  have guarded : EachStep step (KeepsMinedOut tx.sender tx.nonce) s₁ events := by decide
  obtain ⟨t, ran⟩ := Option.isSome_iff_exists.mp (show (runs step s₁ events).isSome by decide)
  exact ⟨applied, t, ran, (mined_stays_gone_iff known included applied ran).mpr guarded⟩

/-- An ordinary late announcement brings the mined transaction back. -/
theorem mined_comes_back :
    let tx := sampleTx 1 0 20 5
    let s := sampleRun 5 [.pendingTransaction tx]
    let s₁ := sampleRun 5 [.pendingTransaction tx, .newBlock ⟨[tx], 0, 0, 0⟩]
    (Reachable (sampleConfig 5) s ∧ tx.sender ∈ s.accountQueues ∧
      s.applyBlock ⟨[tx], 0, 0, 0⟩ = some s₁) ∧
    ∃ t, runs step s₁ [.pendingTransaction tx] = some t ∧
      t.findTxByAddrAndNonce 1 0 = some tx ∧ t.confirmedNonceOf 1 = some 0 ∧
      ¬ Throughout step (Gone 1 0) s₁ [.pendingTransaction tx] := by
  intro tx s s₁
  refine ⟨⟨reachable_sampleRun 5 _, by decide, rfl⟩, _, rfl, by decide, by decide, fun gone => ?_⟩
  exact absurd ((gone.last rfl).1 0 le_rfl) (by decide)

end MempoolTracker

end Bulkmail.Mempool
