import Bulkmail.Library.Checked
import Bulkmail.Library.Collections
import Bulkmail.Library.Runs

/-! # Recent blockhashes

`SolReplayProtection` of `adapter/solana.rs`: a cached blockhash that every task draws from
and that `sync` replaces when the chain comes close to the last block it is valid for.
`sync` waits four times, for the height, for the lock, for the new hash and for the lock
again, so that draws and other calls of `sync` come in between.

The node is outside of the code, and its answers come with the events: a height, or a hash
with the last block it is valid for.  What the results take for granted of them is said in
`NodeKeeps`.
-/

namespace Bulkmail.Solana

open Library

structure BlockhashState (H : Type) where
  hash : H
  lastValidBlockHeight : ℕ
  deriving DecidableEq, Repr

def blockhashRefreshMargin : ℕ := 30

/-- A call of `sync`, or a caller between two of them. -/
inductive Sync (H : Type) where
  | idle
  | checking (currentHeight : ℕ)
  | fetching (currentHeight : ℕ)
  | storing (currentHeight : ℕ) (fetched : BlockhashState H)
  /-- The sum of the height and the margin is out of range. -/
  | panicked
  deriving DecidableEq, Repr

/-- A token from `next`, with the height read by the call of `sync` that had returned `Ok`
    last. -/
structure Draw (H : Type) where
  token : BlockhashState H
  synced : Option ℕ
  deriving DecidableEq, Repr

structure SolReplayProtection (H : Type) where
  state : BlockhashState H
  syncs : List (Sync H)
  /-- The node's block height. -/
  height : ℕ
  /-- The last valid block height of the hash that the node has handed out last. -/
  newest : ℕ
  /-- The height read by the call of `sync` that has returned `Ok` last. -/
  synced : Option ℕ
  drawn : List (Draw H)
  deriving DecidableEq, Repr

inductive SyncEvent (H : Type) where
  | height (currentHeight : ℕ)
  | locks
  | blockhash (fetched : BlockhashState H)
  | stores
  /-- A request fails and `sync` returns the error. -/
  | fails
  deriving DecidableEq, Repr

inductive ReplayEvent (H : Type) where
  | next
  | sync (caller : ℕ) (event : SyncEvent H)
  | newBlocks (count : ℕ)
  deriving DecidableEq, Repr

namespace SolReplayProtection

variable {H : Type}

/-- `new` has fetched a blockhash before there are any callers. -/
def new (fetched : BlockhashState H) (height callers : ℕ) : SolReplayProtection H :=
  ⟨fetched, List.replicate callers .idle, height, fetched.lastValidBlockHeight, none, []⟩

/-- One call of `sync` goes on. -/
def syncStep (s : SolReplayProtection H) (caller : ℕ) :
    Sync H → SyncEvent H → Option (SolReplayProtection H)
  | .idle, .height currentHeight =>
      some { s with syncs := s.syncs.set caller (.checking currentHeight) }
  | .checking currentHeight, .locks =>
      match checkedAdd u64Size currentHeight blockhashRefreshMargin with
      | none => some { s with syncs := s.syncs.set caller .panicked }
      | some limit =>
          if s.state.lastValidBlockHeight ≤ limit then
            some { s with syncs := s.syncs.set caller (.fetching currentHeight) }
          else some { s with syncs := s.syncs.set caller .idle, synced := some currentHeight }
  | .fetching currentHeight, .blockhash fetched =>
      some { s with
        syncs := s.syncs.set caller (.storing currentHeight fetched)
        newest := fetched.lastValidBlockHeight }
  | .storing currentHeight fetched, .stores =>
      some { s with
        syncs := s.syncs.set caller .idle, state := fetched, synced := some currentHeight }
  | .idle, .fails | .fetching _, .fails => some { s with syncs := s.syncs.set caller .idle }
  | _, _ => none

def step (s : SolReplayProtection H) : ReplayEvent H → Option (SolReplayProtection H)
  | .next => some { s with drawn := s.drawn ++ [⟨s.state, s.synced⟩] }
  | .sync caller event => s.syncs[caller]?.bind fun sync => s.syncStep caller sync event
  | .newBlocks count => some { s with height := s.height + count }

/-- What the node promises: a height it answers may lag behind, but was reached; a hash it
    hands out is valid for more than the margin, and expires no earlier than the one handed
    out before. -/
def NodeKeeps (s : SolReplayProtection H) : ReplayEvent H → Prop
  | .sync _ (.height currentHeight) => currentHeight ≤ s.height
  | .sync _ (.blockhash fetched) =>
      s.height + blockhashRefreshMargin < fetched.lastValidBlockHeight ∧
        s.newest ≤ fetched.lastValidBlockHeight
  | .sync _ .locks | .sync _ .stores | .sync _ .fails | .next | .newBlocks _ => True

instance (s : SolReplayProtection H) : DecidablePred (NodeKeeps s)
  | .sync _ (.height _) | .sync _ (.blockhash _) | .sync _ .locks | .sync _ .stores
  | .sync _ .fails | .next | .newBlocks _ => by unfold NodeKeeps; infer_instance

/-! ## Fresh tokens -/

variable {s t : SolReplayProtection H} {caller : ℕ} {sync : Sync H}

/-- Everything a call of `sync` can do. -/
inductive SyncStepped (s : SolReplayProtection H) (caller : ℕ) :
    Sync H → SyncEvent H → SolReplayProtection H → Prop where
  | reads {h} : SyncStepped s caller .idle (.height h)
      { s with syncs := s.syncs.set caller (.checking h) }
  | passes {h} : h + blockhashRefreshMargin < s.state.lastValidBlockHeight →
      SyncStepped s caller (.checking h) .locks
        { s with syncs := s.syncs.set caller .idle, synced := some h }
  | expires {h} : s.state.lastValidBlockHeight ≤ h + blockhashRefreshMargin →
      SyncStepped s caller (.checking h) .locks
        { s with syncs := s.syncs.set caller (.fetching h) }
  | overflows {h} : u64Size ≤ h + blockhashRefreshMargin → SyncStepped s caller (.checking h) .locks
      { s with syncs := s.syncs.set caller .panicked }
  | fetches {h fetched} : SyncStepped s caller (.fetching h) (.blockhash fetched)
      { s with
        syncs := s.syncs.set caller (.storing h fetched)
        newest := fetched.lastValidBlockHeight }
  | stores {h fetched} : SyncStepped s caller (.storing h fetched) .stores
      { s with syncs := s.syncs.set caller .idle, state := fetched, synced := some h }
  | fails {call : Sync H} : SyncStepped s caller call .fails
      { s with syncs := s.syncs.set caller .idle }

theorem syncStep_spec {event : SyncEvent H} (stepped : s.syncStep caller sync event = some t) :
    SyncStepped s caller sync event t := by
  unfold syncStep at stepped
  split at stepped
  · cases stepped
    exact .reads
  · rename_i h
    cases sum : checkedAdd u64Size h blockhashRefreshMargin with
    | none =>
        rw [sum] at stepped
        cases stepped
        apply SyncStepped.overflows
        by_contra small
        rw [checkedAdd_of_lt (Nat.not_le.mp small)] at sum
        cases sum
    | some limit =>
        obtain ⟨-, rfl⟩ := checkedAdd_eq_some_iff.mp sum
        rw [sum] at stepped
        simp only at stepped
        split at stepped
        · rename_i old
          cases stepped
          exact .expires old
        · rename_i fresh
          cases stepped
          exact .passes (Nat.lt_of_not_le fresh)
  · cases stepped
    exact .fetches
  · cases stepped
    exact .stores
  · cases stepped
    exact .fails
  · cases stepped
    exact .fails
  · cases stepped

/-- What a call of `sync` knows of the height it has read. -/
def SyncKnows (height : ℕ) : Sync H → Prop
  | .checking h | .fetching h => h ≤ height
  | .storing h fetched => h + blockhashRefreshMargin < fetched.lastValidBlockHeight
  | .idle | .panicked => True

structure Fresh (s : SolReplayProtection H) : Prop where
  cached : ∀ h, s.synced = some h → h + blockhashRefreshMargin < s.state.lastValidBlockHeight
  syncs : ∀ sync ∈ s.syncs, SyncKnows s.height sync
  drawn : ∀ draw ∈ s.drawn, ∀ h, draw.synced = some h →
    h + blockhashRefreshMargin < draw.token.lastValidBlockHeight

theorem SyncKnows.mono {height height' : ℕ} (knows : SyncKnows height sync)
    (le : height ≤ height') : SyncKnows height' sync := by
  cases sync with
  | checking | fetching => exact le_trans knows le
  | idle | storing | panicked => exact knows

/-- A call goes on to something it knows as much of. -/
theorem Fresh.syncs_set {next : Sync H} (fresh : Fresh s) (knows : SyncKnows s.height next) :
    ∀ sync ∈ s.syncs.set caller next, SyncKnows s.height sync := by
  intro sync member
  cases List.mem_or_eq_of_mem_set member with
  | inl before => exact fresh.syncs sync before
  | inr same => exact same ▸ knows

/-- A call that returns `Ok` leaves a hash that is fresh at the height it has read. -/
theorem fresh_sync {event : SyncEvent H} (fresh : Fresh s)
    (keeps : NodeKeeps s (.sync caller event)) (knows : SyncKnows s.height sync)
    (stepped : SyncStepped s caller sync event t) : Fresh t := by
  cases stepped with
  | reads => exact { fresh with syncs := fresh.syncs_set keeps }
  | expires => exact { fresh with syncs := fresh.syncs_set knows }
  | overflows | fails => exact { fresh with syncs := fresh.syncs_set trivial }
  | fetches =>
      have lasting := Nat.lt_of_le_of_lt (Nat.add_le_add_right knows _) keeps.1
      exact { fresh with syncs := fresh.syncs_set lasting }
  | passes far =>
      refine { fresh with cached := fun h same => ?_, syncs := fresh.syncs_set trivial }
      obtain rfl := Option.some.inj same
      exact far
  | stores =>
      refine { fresh with cached := fun h same => ?_, syncs := fresh.syncs_set trivial }
      obtain rfl := Option.some.inj same
      exact knows

theorem fresh_step {event : ReplayEvent H} (fresh : Fresh s) (keeps : NodeKeeps s event)
    (stepped : s.step event = some t) : Fresh t := by
  cases event with
  | next =>
      cases stepped
      refine { fresh with drawn := fun draw member => ?_ }
      cases List.mem_append.mp member with
      | inl before => exact fresh.drawn draw before
      | inr last =>
          obtain rfl := List.mem_singleton.mp last
          exact fresh.cached
  | sync caller event =>
      obtain ⟨sync, found, moved⟩ := Option.bind_eq_some_iff.mp stepped
      exact fresh_sync fresh keeps (fresh.syncs sync (List.mem_of_getElem? found))
        (syncStep_spec moved)
  | newBlocks count =>
      cases stepped
      exact { fresh with
        syncs := fun sync member => (fresh.syncs sync member).mono (Nat.le_add_right _ _) }

theorem fresh_new (fetched : BlockhashState H) (height callers : ℕ) :
    Fresh (new fetched height callers) where
  cached _ same := by cases same
  syncs sync member := by
    obtain rfl := List.eq_of_mem_replicate member
    trivial
  drawn _ member := by cases member

/-! ## One caller -/

/-- The hash a call of `sync` brings is the newest one, and no older than the cached one. -/
def BringsLater (newest : ℕ) (state : BlockhashState H) : Sync H → Prop
  | .storing _ fetched => state.lastValidBlockHeight ≤ fetched.lastValidBlockHeight ∧
      fetched.lastValidBlockHeight ≤ newest
  | .idle | .checking _ | .fetching _ | .panicked => True

structure InOrder (s : SolReplayProtection H) : Prop where
  one : s.syncs.length ≤ 1
  reach : s.state.lastValidBlockHeight ≤ s.newest
  brought : ∀ sync ∈ s.syncs, BringsLater s.newest s.state sync
  last : ∀ draw ∈ s.drawn, draw.token.lastValidBlockHeight ≤ s.state.lastValidBlockHeight
  drawn : s.drawn.Pairwise fun first later =>
    first.token.lastValidBlockHeight ≤ later.token.lastValidBlockHeight

/-- The only caller goes on, and there is no other whose hash could be out of date. -/
theorem InOrder.brought_set {newest : ℕ} {state : BlockhashState H} {next : Sync H}
    (order : InOrder s) (found : s.syncs[caller]? = some sync)
    (brings : BringsLater newest state next) :
    ∀ sync ∈ s.syncs.set caller next, BringsLater newest state sync := by
  obtain ⟨inside, -⟩ := List.getElem?_eq_some_iff.mp found
  obtain ⟨alone, single⟩ := List.length_eq_one_iff.mp
    (le_antisymm order.one (Nat.zero_lt_of_lt inside))
  have only : caller = 0 := by have := order.one; omega
  intro sync member
  simp only [single, only, List.set_cons_zero, List.mem_singleton] at member
  exact member ▸ brings

theorem inOrder_sync {event : SyncEvent H} (order : InOrder s)
    (keeps : NodeKeeps s (.sync caller event)) (found : s.syncs[caller]? = some sync)
    (stepped : SyncStepped s caller sync event t) : InOrder t := by
  have one : ∀ next, (s.syncs.set caller next).length ≤ 1 := fun next => by
    simpa using order.one
  cases stepped with
  | reads | passes | expires | overflows | fails =>
      exact { order with one := one _, brought := order.brought_set found trivial }
  | @fetches h fetched =>
      have brings : BringsLater fetched.lastValidBlockHeight s.state (.storing h fetched) :=
        ⟨order.reach.trans keeps.2, le_rfl⟩
      exact { order with
        one := one _
        reach := order.reach.trans keeps.2
        brought := order.brought_set found brings }
  | stores =>
      obtain ⟨later, newest⟩ := order.brought _ (List.mem_of_getElem? found)
      exact { order with
        one := one _
        reach := newest
        brought := order.brought_set found trivial
        last := fun draw member => (order.last draw member).trans later }

theorem inOrder_step {event : ReplayEvent H} (order : InOrder s) (keeps : NodeKeeps s event)
    (stepped : s.step event = some t) : InOrder t := by
  cases event with
  | next =>
      cases stepped
      refine { order with last := fun draw member => ?_, drawn := ?_ }
      · cases List.mem_append.mp member with
        | inl before => exact order.last draw before
        | inr last =>
            obtain rfl := List.mem_singleton.mp last
            exact le_rfl
      · apply List.pairwise_append.mpr
        refine ⟨order.drawn, List.pairwise_singleton _ _, fun draw before other last => ?_⟩
        obtain rfl := List.mem_singleton.mp last
        exact order.last draw before
  | sync caller event =>
      obtain ⟨sync, found, moved⟩ := Option.bind_eq_some_iff.mp stepped
      exact inOrder_sync order keeps found (syncStep_spec moved)
  | newBlocks count =>
      cases stepped
      exact { order with }

theorem inOrder_new (fetched : BlockhashState H) (height : ℕ) {callers : ℕ} (one : callers ≤ 1) :
    InOrder (new fetched height callers) where
  one := by simpa [new] using one
  reach := le_rfl
  brought sync member := by
    obtain rfl := List.eq_of_mem_replicate member
    trivial
  last _ member := by cases member
  drawn := List.Pairwise.nil

/-- However draws and calls of `sync` interleave, a drawn token is valid for more than the
    margin above the height read by the call of `sync` that has returned `Ok` last.  With one
    caller the tokens are drawn in the order in which they expire. -/
theorem tokens_drawn_fresh {fetched : BlockhashState H} {height callers : ℕ}
    {events : List (ReplayEvent H)}
    (keeps : EachStep step NodeKeeps (new fetched height callers) events)
    (ran : runs step (new fetched height callers) events = some s) :
    (∀ draw ∈ s.drawn, ∀ h, draw.synced = some h →
      h + blockhashRefreshMargin < draw.token.lastValidBlockHeight) ∧
    (callers ≤ 1 → s.drawn.Pairwise fun first later =>
      first.token.lastValidBlockHeight ≤ later.token.lastValidBlockHeight) := by
  constructor
  · have fresh := Throughout.of_invariant (fun _ _ _ => fresh_step) (fun _ held => held.drawn)
      (fresh_new fetched height callers) keeps
    exact fresh.last ran
  · intro one
    have order := Throughout.of_invariant (fun _ _ _ => inOrder_step) (fun _ held => held.drawn)
      (inOrder_new fetched height one) keeps
    exact order.last ran

/-- A call of `sync` refreshes the cache between two draws and during a third; another one
    fails and leaves things as they are. -/
theorem tokens_drawn_fresh_around_sync :
    let events : List (ReplayEvent ℕ) :=
      [.next, .newBlocks 130, .sync 0 (.height 1125), .sync 0 .locks, .next,
        .sync 0 (.blockhash ⟨8, 1280⟩), .newBlocks 160, .sync 0 .stores, .next,
        .sync 0 (.height 1290), .sync 0 .locks, .sync 0 .fails, .next]
    ∃ s, runs step (new ⟨7, 1150⟩ 1000 1) events = some s ∧
      s.drawn = [⟨⟨7, 1150⟩, none⟩, ⟨⟨7, 1150⟩, none⟩, ⟨⟨8, 1280⟩, some 1125⟩,
        ⟨⟨8, 1280⟩, some 1125⟩] ∧
      (∀ draw ∈ s.drawn, ∀ h, draw.synced = some h →
        h + blockhashRefreshMargin < draw.token.lastValidBlockHeight) ∧
      s.drawn.Pairwise fun first later =>
        first.token.lastValidBlockHeight ≤ later.token.lastValidBlockHeight := by
  intro events
  have shown : (runs step (new ⟨7, 1150⟩ 1000 1) events).map (·.drawn) =
      some [⟨⟨7, 1150⟩, none⟩, ⟨⟨7, 1150⟩, none⟩, ⟨⟨8, 1280⟩, some 1125⟩,
        ⟨⟨8, 1280⟩, some 1125⟩] := by decide +kernel
  obtain ⟨s, ran, drawn⟩ := Option.map_eq_some_iff.mp shown
  have keeps : EachStep step NodeKeeps (new ⟨7, 1150⟩ 1000 1) events := by decide +kernel
  obtain ⟨fresh, ordered⟩ := tokens_drawn_fresh keeps ran
  exact ⟨s, ran, drawn, fresh, ordered le_rfl⟩

end SolReplayProtection

end Bulkmail.Solana
