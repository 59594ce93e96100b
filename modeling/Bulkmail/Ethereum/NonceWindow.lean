import Bulkmail.Ethereum.EthSender
import Bulkmail.Ethereum.FeeBounds
import Bulkmail.Ethereum.NonceCalls

/-! # How far ahead nonces run

The nonce manager bounds nothing by itself: it hands out the next free nonce for as long
as it is asked.  What keeps the nonces of a `Sender<Eth>` together is the semaphore.  A
nonce in flight is the baseline, or belongs to a live task, or was left behind by a task
that panicked, so there are never many of them, and the one that is handed out is near
the baseline.
-/

namespace Bulkmail.Ethereum

open Library Sender

/-! ## A window over the nonces in flight -/

section Window

variable {nonces nonces' : NonceState} {held : ℕ → Option ℕ} {leaks i n newNonce : ℕ}

/-- The nonces in flight, with who holds one and how many were left behind. -/
structure Window (nonces : NonceState) (held : ℕ → Option ℕ) (leaks : ℕ) : Prop where
  floored : nonces.Floored
  accounted : ∃ leaked : Finset ℕ, leaked.card ≤ leaks ∧ ∀ n ∈ nonces.inFlight,
    n = nonces.current ∨ n ∈ leaked ∨ ∃ i, held i = some n
  near : ∀ i n, held i = some n → n ≤ nonces.current + maxInFlightTransactions + leaks

namespace Window

theorem new (currentNonce : ℕ) : Window (.new currentNonce) (fun _ => none) 0 where
  floored := NonceState.floored_new currentNonce
  accounted := ⟨∅, le_rfl, by simp [NonceState.new]⟩
  near := by simp

/-- Moving the baseline drops what it has passed; the old baseline goes with it. -/
theorem mem_updateCurrentNonce (window : Window nonces held leaks)
    (member : n ∈ (nonces.updateCurrentNonce newNonce).inFlight) :
    n ∈ nonces.inFlight ∧
      (n = nonces.current → n = (nonces.updateCurrentNonce newNonce).current) := by
  refine ⟨NonceState.inFlight_updateCurrentNonce_subset member, fun same => ?_⟩
  have above := NonceState.floored_updateCurrentNonce window.floored newNonce n member
  rw [NonceState.current_updateCurrentNonce] at above ⊢
  omega

theorem updateCurrentNonce (window : Window nonces held leaks) (newNonce : ℕ) :
    Window (nonces.updateCurrentNonce newNonce) held leaks where
  floored := NonceState.floored_updateCurrentNonce window.floored newNonce
  accounted := by
    obtain ⟨leaked, few, accounted⟩ := window.accounted
    refine ⟨leaked, few, fun n member => ?_⟩
    obtain ⟨before, kept⟩ := window.mem_updateCurrentNonce member
    exact (accounted n before).imp_left kept
  near i n holds := by
    have near := window.near i n holds
    rw [NonceState.current_updateCurrentNonce]
    omega

theorem assigned (window : Window nonces held leaks)
    (drawn : nonces.getNextAvailableNonce = some (n, nonces')) (idle : held i = none)
    (near : n ≤ nonces.current + maxInFlightTransactions + leaks) :
    Window nonces' (Function.update held i (some n)) leaks := by
  have floored := NonceState.floored_assigned window.floored drawn
  obtain ⟨-, rfl⟩ := NonceState.getNextAvailableNonce_spec drawn
  refine ⟨floored, ?_, fun j m holds => ?_⟩
  · obtain ⟨leaked, few, accounted⟩ := window.accounted
    refine ⟨leaked, few, fun m member => ?_⟩
    cases Finset.mem_insert.mp member with
    | inl same => exact .inr (.inr ⟨i, by rw [Function.update_self, same]⟩)
    | inr before =>
        refine (accounted m before).imp_right (Or.imp_right fun holder => ?_)
        obtain ⟨j, holds⟩ := holder
        have other : j ≠ i := fun same => by simp [same, idle] at holds
        exact ⟨j, (Function.update_of_ne other _ _).trans holds⟩
  · by_cases same : j = i
    · rw [same, Function.update_self] at holds
      exact Option.some.inj holds ▸ near
    · rw [Function.update_of_ne same] at holds
      exact window.near j m holds

/-- Who still holds a nonce after `i` has let go of its own. -/
theorem holds_of_update_none {j m : ℕ} (holds : Function.update held i none j = some m) :
    held j = some m := by
  by_cases same : j = i
  · rw [same, Function.update_self] at holds
    cases holds
  · rwa [Function.update_of_ne same] at holds

theorem exists_holder_update_none {m : ℕ} (holder : ∃ j, held j = some m)
    (other : held i ≠ some m) : ∃ j, Function.update held i none j = some m := by
  obtain ⟨j, holds⟩ := holder
  have differs : j ≠ i := fun same => other (same ▸ holds)
  exact ⟨j, (Function.update_of_ne differs _ _).trans holds⟩

/-- A holder is done with its nonce, which is free or has become the baseline. -/
theorem released (window : Window nonces held leaks) (holding : held i = some n)
    (floored : nonces'.Floored) (baseline : nonces.current ≤ nonces'.current)
    (kept : ∀ m ∈ nonces'.inFlight,
      m ∈ nonces.inFlight ∧ (m = nonces.current ∨ m = n → m = nonces'.current)) :
    Window nonces' (Function.update held i none) leaks where
  floored := floored
  accounted := by
    obtain ⟨leaked, few, accounted⟩ := window.accounted
    refine ⟨leaked, few, fun m member => ?_⟩
    obtain ⟨before, becomes⟩ := kept m member
    by_cases own : m = n
    · exact .inl (becomes (.inr own))
    · rcases accounted m before with same | left | holder
      · exact .inl (becomes (.inl same))
      · exact .inr (.inl left)
      · refine .inr (.inr (exists_holder_update_none holder fun holds => own ?_))
        exact Option.some.inj (holds.symm.trans holding)
  near j m holds := by
    have near := window.near j m (holds_of_update_none holds)
    omega

theorem markNonceAvailable (window : Window nonces held leaks) (holding : held i = some n) :
    Window (nonces.markNonceAvailable n) (Function.update held i none) leaks := by
  refine window.released holding (NonceState.floored_markNonceAvailable window.floored n) le_rfl ?_
  intro m member
  obtain ⟨differs, before⟩ := Finset.mem_erase.mp member
  exact ⟨before, fun either => either.resolve_right differs⟩

/-- A confirmed nonce is the baseline from then on, if it is not below it already. -/
theorem confirmed (window : Window nonces held leaks) (holding : held i = some n) :
    Window (nonces.updateCurrentNonce n) (Function.update held i none) leaks := by
  have floored := NonceState.floored_updateCurrentNonce window.floored n
  have raised : nonces.current ≤ (nonces.updateCurrentNonce n).current := by
    rw [NonceState.current_updateCurrentNonce]
    exact Nat.le_max_left _ _
  refine window.released holding floored raised fun m member => ?_
  obtain ⟨before, becomes⟩ := window.mem_updateCurrentNonce member
  refine ⟨before, fun either => ?_⟩
  cases either with
  | inl same => exact becomes same
  | inr same =>
      have above := floored m member
      rw [NonceState.current_updateCurrentNonce] at above ⊢
      omega

/-- A task that panics leaves one nonce behind at most. -/
theorem left (window : Window nonces held leaks) (floored : nonces'.Floored) (own : ℕ)
    (baseline : nonces'.current = nonces.current)
    (added : ∀ m ∈ nonces'.inFlight, m ∈ nonces.inFlight ∨ m = own)
    (holding : ∀ m, held i = some m → m = own) :
    Window nonces' (Function.update held i none) (leaks + 1) where
  floored := floored
  accounted := by
    obtain ⟨leaked, few, accounted⟩ := window.accounted
    refine ⟨insert own leaked, (Finset.card_insert_le own leaked).trans (by omega), ?_⟩
    intro m member
    by_cases mine : m = own
    · exact .inr (.inl (mine ▸ Finset.mem_insert_self own leaked))
    · rcases accounted m ((added m member).resolve_right mine) with same | left | holder
      · exact .inl (same.trans baseline.symm)
      · exact .inr (.inl (Finset.mem_insert_of_mem left))
      · exact .inr (.inr (exists_holder_update_none holder fun holds => mine (holding m holds)))
  near j m holds := by
    have near := window.near j m (holds_of_update_none holds)
    omega

/-- Only so many nonces are in flight. -/
theorem card_le (window : Window nonces held leaks) {holders : List ℕ}
    (listed : ∀ i n, held i = some n → n ∈ holders) :
    nonces.inFlight.card ≤ holders.length + 1 + leaks := by
  obtain ⟨leaked, few, accounted⟩ := window.accounted
  have covered : nonces.inFlight ⊆ insert nonces.current (leaked ∪ holders.toFinset) := by
    intro n member
    rcases accounted n member with same | left | holder
    · exact same ▸ Finset.mem_insert_self _ _
    · exact Finset.mem_insert_of_mem (Finset.mem_union_left _ left)
    · obtain ⟨i, holds⟩ := holder
      have there := List.mem_toFinset.mpr (listed i n holds)
      exact Finset.mem_insert_of_mem (Finset.mem_union_right _ there)
  calc nonces.inFlight.card
      ≤ (insert nonces.current (leaked ∪ holders.toFinset)).card := Finset.card_le_card covered
    _ ≤ (leaked ∪ holders.toFinset).card + 1 := Finset.card_insert_le _ _
    _ ≤ leaked.card + holders.toFinset.card + 1 := Nat.succ_le_succ (Finset.card_union_le _ _)
    _ ≤ holders.length + 1 + leaks := by
        have distinct := holders.toFinset_card_le
        omega

theorem drawn_le (window : Window nonces held leaks) {holders : List ℕ}
    (listed : ∀ i n, held i = some n → n ∈ holders)
    (drawn : nonces.getNextAvailableNonce = some (n, nonces')) :
    n ≤ nonces.current + holders.length + 1 + leaks := by
  have least := (NonceState.getNextAvailableNonce_eq_some_iff.mp drawn).1
  obtain ⟨free, first, close⟩ := exists_isLeast_free nonces.current nonces.inFlight
  have few := window.card_le listed
  rw [least.unique first]
  omega

theorem mono (window : Window nonces held leaks) {more : ℕ} (le : leaks ≤ more) :
    Window nonces held more where
  floored := window.floored
  accounted := window.accounted.imp fun _ held => ⟨held.1.trans le, held.2⟩
  near i n holds := by
    have near := window.near i n holds
    omega

end Window

end Window

/-! ## What a task does to the window -/

namespace EthTask

variable {chainId nowMs : ℕ} {nonces nonces' : NonceState} {task next : EthTask}
variable {answer : EthAnswer}

/-- A task's step as the window sees it. -/
inductive Effect (task : EthTask) (nonces : NonceState) (next : EthTask) (nonces' : NonceState) :
    Prop where
  | keep : next.heldNonce = task.heldNonce → nonces' = nonces → Effect task nonces next nonces'
  | draw (n : ℕ) : task.heldNonce = none → nonces.getNextAvailableNonce = some (n, nonces') →
      next.heldNonce = some n → Effect task nonces next nonces'
  | give (n : ℕ) : task.heldNonce = some n → next.heldNonce = none →
      nonces' = nonces.markNonceAvailable n → Effect task nonces next nonces'
  | confirm (n : ℕ) : task.heldNonce = some n → next.heldNonce = none →
      nonces' = nonces.updateCurrentNonce n → Effect task nonces next nonces'
  | panic : next = panicked → nonces' = nonces → Effect task nonces next nonces'
  | drawPanic (n : ℕ) : next = panicked → task.heldNonce = none →
      nonces.getNextAvailableNonce = some (n, nonces') → Effect task nonces next nonces'

theorem effect_advanced (counted : task.WellCounted)
    (advanced : Advanced chainId nowMs nonces task answer next nonces') :
    Effect task nonces next nonces' := by
  cases advanced with
  | start spec => cases spec <;> exact .keep rfl rfl
  | drawPanic => exact .panic rfl rfl
  | draw drawn spec =>
      cases spec with
      | drawPanic => exact .drawPanic _ rfl rfl drawn
      | drawn => exact .draw _ rfl drawn rfl
  | @iterate msg fee nonce count call resumed spec =>
      cases spec with
      | loopPanic => exact .panic rfl rfl
      | loopExpired => exact .keep rfl rfl
      | sent =>
          cases enterSend_eq chainId ⟨.sending msg fee nonce count, .entry⟩ with
          | inl entered =>
              rw [entered]
              exact .keep rfl rfl
          | inr panics => exact .panic panics rfl
  | confirm => exact .confirm _ rfl rfl rfl
  | strategyReturns => exact absurd rfl (counted.call _)
  | strategyReleases guard => exact (not_strategyReleases counted guard).elim
  | bumpPanic => exact .panic rfl rfl
  | resubmit => exact .keep rfl rfl
  | release spec => cases spec <;> exact .give _ rfl rfl rfl
  | add spec => cases spec <;> exact .keep rfl rfl
  | price spec => cases spec <;> exact .keep rfl rfl
  | broadcast | register | watch => exact .keep rfl rfl
  | sendError spec | registerError spec | timedOut spec | receiptCame spec =>
      exact .keep (Phase.heldToken_resumed_sending spec) rfl

end EthTask

/-! ## The nonces of spawned tasks -/

section Spawned

variable {tasks tasks' : List (SpawnedTask EthFeeParams ℕ TxHash)} {i n : ℕ}
variable {task : SpawnedTask EthFeeParams ℕ TxHash}

/-- The nonce a spawned task holds. -/
def spawnedNonce (task : SpawnedTask EthFeeParams ℕ TxHash) : Option ℕ :=
  match task.stage with
  | .running phase => phase.heldToken
  | _ => none

def nonceAt (tasks : List (SpawnedTask EthFeeParams ℕ TxHash)) (i : ℕ) : Option ℕ :=
  tasks[i]?.bind spawnedNonce

theorem nonceAt_set (found : tasks[i]? = some task) (next : SpawnedTask EthFeeParams ℕ TxHash) :
    nonceAt (tasks.set i next) = Function.update (nonceAt tasks) i (spawnedNonce next) := by
  have inside := (List.getElem?_eq_some_iff.mp found).1
  funext j
  by_cases here : j = i
  · simp [nonceAt, here, inside]
  · rw [Function.update_of_ne here]
    simp [nonceAt, List.getElem?_set_ne (Ne.symm here)]

/-- A task that is started holds no nonce. -/
theorem nonceAt_append (idle : spawnedNonce task = none) :
    nonceAt (tasks ++ [task]) = nonceAt tasks := by
  funext j
  rcases Nat.lt_trichotomy j tasks.length with inside | same | outside
  · simp [nonceAt, List.getElem?_append_left inside]
  · simp [nonceAt, same, idle]
  · have beyond : (tasks ++ [task]).length ≤ j := by simpa using outside
    simp [nonceAt, List.getElem?_eq_none beyond, List.getElem?_eq_none outside.le]

theorem nonceAt_retires (retires : EthSender.Retires tasks tasks') :
    nonceAt tasks' = nonceAt tasks := by
  cases retires with
  | none => rfl
  | @one i id before after found ended adding =>
      have idle : spawnedNonce ⟨id, after⟩ = none := by
        cases after with
        | running phase => exact absurd rfl (ended phase)
        | notifying | returning | ended => rfl
      have without : nonceAt tasks i = none := by
        rw [nonceAt, found, Option.bind_some]
        cases before with
        | running phase =>
            obtain ⟨msg, rfl⟩ := adding phase rfl
            rfl
        | notifying | returning | ended => rfl
      rw [nonceAt_set found, idle, ← without, Function.update_eq_self]

theorem nonceAt_proceed {runLoop : RunLoop EthFeeParams ℕ TxHash} (id : ℕ)
    (found : runLoop.tasks[i]? = some task) (next : EthPhase) :
    nonceAt (runLoop.proceed i id next).tasks =
      Function.update (nonceAt runLoop.tasks) i next.heldToken := by
  cases next with
  | finished exit =>
      cases exit with
      | requeued => exact nonceAt_set found ⟨id, .notifying⟩
      | confirmed | failed | exhausted | abandoned | panicked =>
          exact nonceAt_set found ⟨id, .returning⟩
  | starting | nextToken | feeParams | iterating | sending | confirming | retrying | releasing
  | adding => exact nonceAt_set found ⟨id, .running _⟩

theorem mem_of_nonceAt (holds : nonceAt tasks i = some n) : n ∈ tasks.filterMap spawnedNonce := by
  obtain ⟨task, found, token⟩ := Option.bind_eq_some_iff.mp holds
  exact List.mem_filterMap.mpr ⟨task, List.mem_of_getElem? found, token⟩

theorem live_of_spawnedNonce (holds : (spawnedNonce task).isSome) : task.live := by
  obtain ⟨id, stage⟩ := task
  cases stage with
  | running => rfl
  | notifying | returning | ended => cases holds

theorem length_holders_le (tasks : List (SpawnedTask EthFeeParams ℕ TxHash)) :
    (tasks.filterMap spawnedNonce).length ≤ tasks.countP SpawnedTask.live := by
  rw [List.length_filterMap_eq_countP]
  exact List.countP_mono_left fun _ _ => live_of_spawnedNonce

/-- A running task without a nonce leaves one permit that stands for none. -/
theorem length_holders_lt {id : ℕ} {phase : EthPhase}
    (found : tasks[i]? = some ⟨id, .running phase⟩) (idle : phase.heldToken = none) :
    (tasks.filterMap spawnedNonce).length < tasks.countP SpawnedTask.live := by
  rw [List.length_filterMap_eq_countP]
  refine countP_lt_countP found (fun _ => live_of_spawnedNonce) ?_ rfl
  simp [spawnedNonce, idle]

end Spawned

namespace EthSender

variable {s s' : EthSender}

theorem window_advanced {i id nowMs : ℕ} {phase : EthPhase} {call : EthCall} {answer : EthAnswer}
    {next : EthTask} {nonces : NonceState} (custody : s.runLoop.Custody)
    (window : Window s.nonces (nonceAt s.runLoop.tasks) s.panics)
    (found : s.runLoop.tasks[i]? = some ⟨id, .running phase⟩)
    (counted : EthTask.WellCounted ⟨phase, call⟩)
    (moved : EthTask.advance s.chainId nowMs s.nonces ⟨phase, call⟩ answer = some (next, nonces)) :
    Window nonces (nonceAt (s.runLoop.proceed i id next.phase).tasks)
      (s.panics + (decide (next = .panicked)).toNat) := by
  have here : nonceAt s.runLoop.tasks i = phase.heldToken := by
    rw [nonceAt, found, Option.bind_some, spawnedNonce]
  rw [nonceAt_proceed id found]
  cases EthTask.effect_advanced counted (EthTask.advance_spec moved) with
  | keep kept same =>
      rw [same, show next.phase.heldToken = phase.heldToken from kept, ← here,
        Function.update_eq_self]
      exact window.mono (Nat.le_add_right _ _)
  | draw n idle drawn holds =>
      have free := length_holders_lt found idle
      have permits := custody.permits
      have close := window.drawn_le (fun _ _ => mem_of_nonceAt) drawn
      have near : n ≤ s.nonces.current + maxInFlightTransactions + s.panics := by
        rw [RunLoop.liveTasks] at permits
        omega
      rw [show next.phase.heldToken = some n from holds]
      exact (window.assigned drawn (here.trans idle) near).mono (Nat.le_add_right _ _)
  | give n holding gone same =>
      rw [same, show next.phase.heldToken = none from gone]
      exact (window.markNonceAvailable (here.trans holding)).mono (Nat.le_add_right _ _)
  | confirm n holding gone same =>
      rw [same, show next.phase.heldToken = none from gone]
      exact (window.confirmed (here.trans holding)).mono (Nat.le_add_right _ _)
  | panic panics same =>
      subst panics same
      exact window.left window.floored (phase.heldToken.getD 0) rfl (fun _ => .inl)
        fun m holds => by rw [here] at holds; rw [holds, Option.getD_some]
  | drawPanic n panics idle drawn =>
      subst panics
      have floored := NonceState.floored_assigned window.floored drawn
      obtain ⟨-, rfl⟩ := NonceState.getNextAvailableNonce_spec drawn
      refine window.left floored n rfl (fun m member => (Finset.mem_insert.mp member).symm) ?_
      intro m holds
      cases holds.symm.trans (here.trans idle)

theorem window_step (custody : s.runLoop.Custody)
    (counted : ∀ {i id : ℕ} {phase call}, s.runLoop.tasks[i]? = some ⟨id, .running phase⟩ →
      s.calls[i]? = some call → EthTask.WellCounted ⟨phase, call⟩)
    (window : Window s.nonces (nonceAt s.runLoop.tasks) s.panics) (stepped : Stepped s s') :
    Window s'.nonces (nonceAt s'.runLoop.tasks) s'.panics := by
  cases stepped with
  | loop moved retires =>
      rw [nonceAt_retires retires]
      exact window
  | pops moved spawned =>
      rw [spawned, nonceAt_append rfl]
      exact window
  | @synced runLoop fetched moved same =>
      rw [same]
      cases fetched with
      | ok onChainNonce => exact window.updateCurrentNonce onChainNonce
      | error => exact window
  | task _ found there moved =>
      exact window_advanced custody window found (counted found there) moved
  | quoted found there _ _ moved =>
      exact window_advanced custody window found (counted found there) moved
  | @quotePanic i id msg nonce priority base found known overflow =>
      have gone := nonceAt_set found ⟨id, .returning⟩
      have here : nonceAt s.runLoop.tasks i = some nonce := by
        rw [nonceAt, found, Option.bind_some]
        rfl
      rw [show (s.runLoop.settle i id .panicked).tasks =
        s.runLoop.tasks.set i ⟨id, .returning⟩ from rfl, gone]
      refine window.left window.floored nonce rfl (fun _ => .inl) fun m holds => ?_
      exact Option.some.inj (holds.symm.trans here)
  | readsEstimate | records | blends => exact window

theorem Reachable.counted (reached : Reachable s) {i id : ℕ} {phase : EthPhase} {call : EthCall}
    (found : s.runLoop.tasks[i]? = some ⟨id, .running phase⟩) (there : s.calls[i]? = some call) :
    EthTask.WellCounted ⟨phase, call⟩ := by
  obtain ⟨f, arrived, represents⟩ := reached.represented
  exact arrived.sound.counted _ (List.mem_of_getElem? (represents.running found there))

theorem Reachable.window (reached : Reachable s) :
    Window s.nonces (nonceAt s.runLoop.tasks) s.panics := by
  obtain ⟨chainId, currentNonce, events, ran⟩ := reached
  let inv : EthSender → Prop := fun s =>
    Reachable s ∧ Window s.nonces (nonceAt s.runLoop.tasks) s.panics
  have preserves : ∀ s event s', inv s → s.step event = some s' → inv s' := by
    intro s event s' held stepped
    exact ⟨held.1.step stepped,
      window_step held.1.custody held.1.counted held.2 (step_spec stepped)⟩
  have start : inv (new chainId currentNonce) :=
    ⟨⟨chainId, currentNonce, [], rfl⟩, Window.new currentNonce⟩
  have final : inv s := runs_invariant preserves start ran
  exact final.2

/-- Every nonce a task holds is within sixteen of the baseline, and no more nonces are in
    flight than there are live tasks and one; a task that panics adds one to both. -/
theorem nonces_stay_near (reached : Reachable s) :
    (∀ (i id n : ℕ) phase, s.runLoop.tasks[i]? = some ⟨id, .running phase⟩ →
      phase.heldToken = some n → n ≤ s.nonces.current + 16 + s.panics) ∧
    s.nonces.inFlight.card ≤ s.runLoop.liveTasks + 1 + s.panics ∧
    s.runLoop.liveTasks ≤ 16 := by
  have window := reached.window
  have few := window.card_le fun _ _ => mem_of_nonceAt
  have permits := reached.custody.permits
  have holders := length_holders_le s.runLoop.tasks
  refine ⟨fun i id n phase found holds => window.near i n ?_, ?_, ?_⟩
  · rw [nonceAt, found, Option.bind_some]
    exact holds
  · rw [RunLoop.liveTasks]
    omega
  · rw [maxInFlightTransactions] at permits
    omega

/-- One task confirms nonce 3, which stays in flight as the baseline, and another one has
    drawn nonce 4. -/
theorem nonces_stay_near_after_confirmation :
    let events := sends 0 ++ [.readsEstimate 0, .quotes 0 0, .task 0 0 .ready,
      .task 0 0 (.sent (.ok 5)), .task 0 0 (.registered (.ok ())), .task 0 0 (.watched true),
      .task 0 0 (.receipt (.ok (some true))), .task 0 0 .ready, .loop (.taskReturns 0)] ++ sends 1
    ∃ s, runs step (new 1 3) events = some s ∧
      (s.nonces, s.runLoop.liveTasks, s.panics) = (⟨3, {4, 3}⟩, 1, 0) ∧
      (∀ (i id n : ℕ) phase, s.runLoop.tasks[i]? = some ⟨id, .running phase⟩ →
        phase.heldToken = some n → n ≤ s.nonces.current + 16 + s.panics) ∧
      s.nonces.inFlight.card ≤ s.runLoop.liveTasks + 1 + s.panics ∧
      s.runLoop.liveTasks ≤ 16 := by
  intro events
  have shown : (runs step (new 1 3) events).map
      (fun s => (s.nonces, s.runLoop.liveTasks, s.panics)) = some (⟨3, {4, 3}⟩, 1, 0) := by
    decide +kernel
  obtain ⟨s, ran, now⟩ := Option.map_eq_some_iff.mp shown
  exact ⟨s, ran, now, nonces_stay_near ⟨1, 3, events, ran⟩⟩

end EthSender

end Bulkmail.Ethereum
