import Bulkmail.Library.Checked
import Bulkmail.Library.Collections
import Bulkmail.Sender.Adapter

/-! # The nonce manager

`bulkmail/src/nonce_manager.rs`.  Every operation runs under one mutex, so it is a
function on the guarded state.  The only thing the callers rely on is which nonces the
state covers: a covered nonce is not handed out.
-/

namespace Bulkmail.Ethereum

open Library Sender

structure NonceState where
  current : ℕ
  inFlight : Finset ℕ
  deriving DecidableEq

namespace NonceState

/-- `NonceManager::new`, given the nonce fetched from the chain. -/
def new (currentNonce : ℕ) : NonceState := ⟨currentNonce, ∅⟩

/-- The loop of `get_next_available_nonce`; `room` is how many `u64` values are left
    from `nonce` on, and running out of them is the overflow of `nonce += 1`. -/
def skipInFlight (inFlight : Finset ℕ) : (room nonce : ℕ) → Option ℕ
  | 0, _ => none
  | room + 1, nonce =>
      if nonce ∈ inFlight then skipInFlight inFlight room (nonce + 1) else some nonce

def getNextAvailableNonce (state : NonceState) : Option (ℕ × NonceState) :=
  (skipInFlight state.inFlight (u64Size - state.current) state.current).map fun nonce =>
    (nonce, { state with inFlight := insert nonce state.inFlight })

def markNonceAvailable (state : NonceState) (nonce : ℕ) : NonceState :=
  { state with inFlight := state.inFlight.erase nonce }

def updateCurrentNonce (state : NonceState) (newNonce : ℕ) : NonceState :=
  if state.current < newNonce then ⟨newNonce, state.inFlight.filter (newNonce ≤ ·)⟩ else state

/-- `sync_nonce`, given the chain's answer, which is there before the mutex is locked. -/
def syncNonce (state : NonceState) : Except ChainError ℕ → Except Error Unit × NonceState
  | .ok onChainNonce => (.ok (), state.updateCurrentNonce onChainNonce)
  | .error error => (.error (.chainError error), state)

/-! ## The next available nonce -/

variable {state state' : NonceState} {nonce other newNonce room : ℕ} {inFlight : Finset ℕ}

/-- The loop stops at the first free nonce, as long as that is a `u64`. -/
theorem skipInFlight_eq_some_iff :
    skipInFlight inFlight room other = some nonce ↔
      IsLeast {free | other ≤ free ∧ free ∉ inFlight} nonce ∧ nonce < other + room := by
  induction room generalizing other with
  | zero =>
      constructor
      · intro found
        cases found
      · intro found
        exact absurd found.1.1.1 (Nat.not_le.mpr found.2)
  | succ room ih =>
      rw [skipInFlight]
      split
      · rename_i taken
        rw [ih, free_succ taken, Nat.add_right_comm, Nat.add_assoc]
      · rename_i free
        have least : IsLeast {free | other ≤ free ∧ free ∉ inFlight} other :=
          ⟨⟨le_rfl, free⟩, fun _ member => member.1⟩
        constructor
        · intro found
          cases found
          exact ⟨least, by omega⟩
        · exact fun found => congrArg some (least.unique found.1)

theorem getNextAvailableNonce_eq_some_iff :
    state.getNextAvailableNonce = some (nonce, state') ↔
      IsLeast {free | state.current ≤ free ∧ free ∉ state.inFlight} nonce ∧ nonce < u64Size ∧
        state' = { state with inFlight := insert nonce state.inFlight } := by
  simp only [getNextAvailableNonce, Option.map_eq_some_iff, Prod.mk.injEq,
    skipInFlight_eq_some_iff]
  constructor
  · rintro ⟨found, ⟨least, small⟩, rfl, rfl⟩
    have above := least.1.1
    exact ⟨least, by omega, rfl⟩
  · rintro ⟨least, small, rfl⟩
    have above := least.1.1
    exact ⟨nonce, ⟨least, by omega⟩, rfl, rfl⟩

/-! ## Covered nonces -/

/-- Not to be handed out: assigned, or below the baseline. -/
def Covers (state : NonceState) (nonce : ℕ) : Prop :=
  nonce ∈ state.inFlight ∨ nonce < state.current

theorem getNextAvailableNonce_spec
    (assigned : state.getNextAvailableNonce = some (nonce, state')) :
    ¬ state.Covers nonce ∧ state' = { state with inFlight := insert nonce state.inFlight } := by
  obtain ⟨least, -, rfl⟩ := getNextAvailableNonce_eq_some_iff.mp assigned
  refine ⟨fun covered => ?_, rfl⟩
  cases covered with
  | inl taken => exact least.1.2 taken
  | inr below => exact absurd least.1.1 (Nat.not_le.mpr below)

theorem covers_assigned (assigned : state.getNextAvailableNonce = some (nonce, state')) :
    state'.Covers other ↔ other = nonce ∨ state.Covers other := by
  rw [(getNextAvailableNonce_spec assigned).2]
  simp [Covers, or_assoc]

theorem covers_markNonceAvailable (covered : state.Covers other) (differ : other ≠ nonce) :
    (state.markNonceAvailable nonce).Covers other := by
  simpa [Covers, markNonceAvailable, differ] using covered

theorem covers_updateCurrentNonce (covered : state.Covers other) :
    (state.updateCurrentNonce newNonce).Covers other := by
  unfold updateCurrentNonce
  split
  · simp only [Covers, Finset.mem_filter]
    cases covered with
    | inl assigned =>
        rcases Nat.lt_or_ge other newNonce with below | above
        · exact .inr below
        · exact .inl ⟨assigned, above⟩
    | inr below => exact .inr (by omega)
  · exact covered

/-! ## The baseline -/

theorem current_updateCurrentNonce :
    (state.updateCurrentNonce newNonce).current = max state.current newNonce := by
  unfold updateCurrentNonce
  split
  · rename_i above
    exact (Nat.max_eq_right above.le).symm
  · rename_i below
    exact (Nat.max_eq_left (Nat.not_lt.mp below)).symm

theorem inFlight_updateCurrentNonce_subset :
    (state.updateCurrentNonce newNonce).inFlight ⊆ state.inFlight := by
  unfold updateCurrentNonce
  split
  · exact Finset.filter_subset _ _
  · exact Finset.Subset.refl _

/-- Nothing below the baseline is in flight. -/
def Floored (state : NonceState) : Prop := ∀ nonce ∈ state.inFlight, state.current ≤ nonce

theorem floored_new (currentNonce : ℕ) : Floored (new currentNonce) := by simp [Floored, new]

theorem floored_assigned (floored : state.Floored)
    (assigned : state.getNextAvailableNonce = some (nonce, state')) : state'.Floored := by
  obtain ⟨free, rfl⟩ := getNextAvailableNonce_spec assigned
  intro other member
  cases Finset.mem_insert.mp member with
  | inl same =>
      subst same
      exact Nat.not_lt.mp fun below => free (.inr below)
  | inr before => exact floored other before

theorem floored_markNonceAvailable (floored : state.Floored) (nonce : ℕ) :
    (state.markNonceAvailable nonce).Floored :=
  fun other member => floored other (Finset.mem_of_mem_erase member)

theorem floored_updateCurrentNonce (floored : state.Floored) (newNonce : ℕ) :
    (state.updateCurrentNonce newNonce).Floored := by
  unfold updateCurrentNonce
  split
  · exact fun other member => (Finset.mem_filter.mp member).2
  · exact floored

end NonceState

end Bulkmail.Ethereum
