import Bulkmail.Ethereum.Consumed
import Bulkmail.Ethereum.FeeBounds
import Bulkmail.Sender.Submissions

/-! # Replacements

Whenever a transaction of a fresh message is dropped, `EthRetryStrategy` resubmits it at
the same nonce with the tip raised by a fifth.  A node accepts a replacement only if both
fees rise by a tenth, but the base fee in `max_fee_per_gas` stays what it was, so the
total rises by a tenth only where the tip is at least about as large as the base fee.  The
raise comes after the cap and is not capped again.
-/

namespace Bulkmail.Ethereum

open Library Sender EthFeeParams

/-- What a node asks of a replacement: both fees up by a tenth. -/
def TxEip1559.Replaces (new old : TxEip1559) : Prop :=
  110 * old.maxPriorityFeePerGas ≤ 100 * new.maxPriorityFeePerGas ∧
    110 * old.maxFeePerGas ≤ 100 * new.maxFeePerGas

instance (new old : TxEip1559) : Decidable (new.Replaces old) := inferInstanceAs (Decidable (_ ∧ _))

namespace FeeSystem

open EthTask

variable {s s' : FeeSystem} {event : FeeEvent}

/-- The pending transaction whose drop an event handles. -/
def handles (s : FeeSystem) : FeeEvent → Option (PendingTransaction EthFeeParams ℕ TxHash)
  | .system (.task i _ .ready) =>
      match s.system.tasks[i]? with
      | some ⟨.retrying _ pending, _⟩ => some pending
      | _ => none
  | _ => none

/-- The transaction a task is about to hand to the chain. -/
def upcoming (s : FeeSystem) (i : ℕ) : Option TxEip1559 :=
  match s.system.tasks[i]? with
  | some ⟨.iterating msg fee nonce _, _⟩ => buildTransaction s.system.chainId msg fee nonce
  | _ => none

/-- The transaction an event gives up on and the one it resubmits in its place. -/
def resubmission (s : FeeSystem) (event : FeeEvent) : Option (TxEip1559 × TxEip1559) := do
  let pending ← s.handles event
  let old ← buildTransaction s.system.chainId pending.msg pending.fee pending.replayToken
  let next ← s.step event
  match event with
  | .system (.task i _ _) => (next.upcoming i).map (old, ·)
  | _ => none

/-! ## The strategy only ever resubmits -/

section Strategy

variable {msg : Message} {pending : PendingTransaction EthFeeParams ℕ TxHash} {call : EthCall}
variable {i : ℕ}

theorem handles_spec (handled : s.handles event = some pending) :
    ∃ i nowMs msg call, event = .system (.task i nowMs .ready) ∧
      s.system.tasks[i]? = some ⟨.retrying msg pending, call⟩ := by
  unfold handles at handled
  split at handled
  · rename_i i nowMs
    split at handled
    · rename_i msg pending call found
      cases handled
      exact ⟨i, nowMs, msg, call, rfl, found⟩
    · cases handled
  · cases handled

theorem within_retrying (sound : Sound s)
    (member : (⟨.retrying msg pending, call⟩ : EthTask) ∈ s.system.tasks) :
    pending.fee.Within pending.replacementCount := sound.fees _ member

theorem handleDropped_resubmits (sound : Sound s)
    (member : (⟨.retrying msg pending, call⟩ : EthTask) ∈ s.system.tasks) (nowMs : ℕ)
    (nonces : NonceState) :
    ∃ fee, bumpFee pending.fee = some fee ∧
      handleDropped nowMs nonces msg pending =
        some (⟨.iterating msg fee pending.replayToken (pending.replacementCount + 1), .entry⟩,
          nonces) := by
  have counted := sound.counted _ member
  have bumped := bumpFee_of_inRange (within_retrying sound member).inRange
  have again : pending.msg.canRetry = true := by
    by_contra spent
    exact not_strategyReleases counted (.inl (by simpa using spent))
  have fewer : ¬ maxReplacements ≤ pending.replacementCount := fun many =>
    not_strategyReleases counted (.inr many)
  refine ⟨_, bumped, ?_⟩
  simp [handleDropped, again, fewer, bumped, proceed, Phase.resume]

/-- A drop is handled in one step, after which the replacement is next to be sent. -/
theorem step_retrying (sound : Sound s)
    (found : s.system.tasks[i]? = some ⟨.retrying msg pending, call⟩) (nowMs : ℕ) :
    ∃ fee s', bumpFee pending.fee = some fee ∧
      s.step (.system (.task i nowMs .ready)) = some s' ∧
      s'.system.chainId = s.system.chainId ∧
      s'.system.tasks[i]? = some
        ⟨.iterating msg fee pending.replayToken (pending.replacementCount + 1), .entry⟩ := by
  have member := List.mem_of_getElem? found
  obtain ⟨fee, bumped, handled⟩ := handleDropped_resubmits sound member nowMs s.system.nonces
  have advanced : advance s.system.chainId nowMs s.system.nonces ⟨.retrying msg pending, call⟩
      .ready = handleDropped nowMs s.system.nonces msg pending := by
    cases call with
    | returning decision => exact absurd rfl ((sound.counted _ member).call decision)
    | entry | registering | watching | fetchingReceipt => rfl
  let next : EthTask :=
    ⟨.iterating msg fee pending.replayToken (pending.replacementCount + 1), .entry⟩
  let system : System :=
    { s.system with
      tasks := s.system.tasks.set i next
      mined := ∅ ∪ s.system.mined
      confirmed := ∅ ∪ s.system.confirmed }
  have moved : s.system.step (.task i nowMs .ready) = some system := by
    simp only [System.step, found, Option.bind_eq_bind, Option.bind_some, advanced, handled]
    rfl
  have after : system.tasks[i]? = some next := getElem?_set_of_found next found
  refine ⟨fee, { s with system, updates := s.updates ++ next.opensUpdate }, bumped, ?_, rfl, after⟩
  simp only [step, moved, Option.bind_eq_bind, Option.bind_some, after]
  rfl

theorem resubmission_of_handles (sound : Sound s) (handled : s.handles event = some pending) :
    ∃ old new, s.resubmission event = some (old, new) ∧
      old.maxPriorityFeePerGas = pending.fee.priorityFee ∧
      old.maxFeePerGas = initialBaseFee + pending.fee.priorityFee ∧
      new.maxPriorityFeePerGas = pending.fee.priorityFee + pending.fee.priorityFee * 20 / 100 ∧
      new.maxFeePerGas =
        initialBaseFee + (pending.fee.priorityFee + pending.fee.priorityFee * 20 / 100) := by
  obtain ⟨i, nowMs, msg, call, rfl, found⟩ := handles_spec handled
  have within := within_retrying sound (List.mem_of_getElem? found)
  obtain ⟨fee, s', bumped, stepped, chain, after⟩ := step_retrying sound found nowMs
  have member := List.mem_of_getElem? after
  have within' : fee.Within (pending.replacementCount + 1) :=
    (sound_step sound (step_spec stepped)).fees _ member
  obtain ⟨old, built, oldTip, oldTotal⟩ :=
    buildTransaction_of_within s.system.chainId pending.msg pending.replayToken within
  obtain ⟨new, built', newTip, newTotal⟩ :=
    buildTransaction_of_within s.system.chainId msg pending.replayToken within'
  have raised := Option.some.inj (bumped.symm.trans (bumpFee_of_inRange within.inRange))
  refine ⟨old, new, ?_, oldTip, oldTotal, ?_, ?_⟩
  · simp [resubmission, handled, built, stepped, upcoming, after, chain, built']
  · rw [newTip, raised]
  · rw [newTotal, raised]

end Strategy

/-- Whatever adapter and strategy answer, a fresh message is submitted at most three times
    and its life ends; with the Ethereum strategy every drop is resubmitted at its nonce. -/
theorem bounded_submissions :
    (∀ {Fee Token TxId : Type} (msg : Message) (nowMs : ℕ) (accepted last : Life Fee Token TxId)
      (events : List (LifeEvent Fee Token TxId)), msg.retryCount = 0 →
      Life.addMessage msg nowMs = some accepted → runs Life.step accepted events = some last →
      accepted.submissions events ≤ Message.maxRetries ∧ events.length ≤ 25) ∧
    ∀ s : FeeSystem, Reachable s → ∀ task ∈ s.system.tasks, ∀ msg pending,
      task.phase = .retrying msg pending → ∀ nowMs, ∃ fee,
        handleDropped nowMs s.system.nonces msg pending =
          some (⟨.iterating msg fee pending.replayToken (pending.replacementCount + 1), .entry⟩,
            s.system.nonces) := by
  constructor
  · intro Fee Token TxId msg nowMs accepted last events fresh added ran
    exact Life.submissions_le fresh added ran
  · intro s reached task member msg pending same nowMs
    obtain ⟨phase, call⟩ := task
    cases same
    obtain ⟨fee, -, handled⟩ :=
      handleDropped_resubmits reached.sound member nowMs s.system.nonces
    exact ⟨fee, handled⟩

/-- A strategy that always requeues gets three submissions out of a message. -/
theorem bounded_submissions_under_requeue :
    let again : List (LifeEvent ℕ ℕ ℕ) := [.popped, .resumed 0 .ready, .resumed 0 (.token 7),
      .resumed 0 (.fee (.ok 1)), .resumed 0 .ready, .resumed 0 (.outcome (.ok (.dropped 4))),
      .resumed 0 (.decision .requeue), .resumed 0 .ready, .resumed 0 .ready]
    let events := again ++ again ++ again.take 6 ++ [.resumed 0 .ready]
    let accepted : Life ℕ ℕ ℕ := .queued sampleMessage 0
    let drops := sends 0 sampleMessage ++ [.system (.task 0 0 (.watched false))]
    (accepted.submissions events = 3 ∧
      accepted.submissions events ≤ Message.maxRetries ∧ events.length ≤ 25) ∧
    ∃ s, runs step (new 1 0) drops = some s ∧ s.system.tasks.length = 1 ∧
      ∀ task ∈ s.system.tasks, ∀ msg pending, task.phase = .retrying msg pending → ∀ nowMs, ∃ fee,
        handleDropped nowMs s.system.nonces msg pending =
          some (⟨.iterating msg fee pending.replayToken (pending.replacementCount + 1), .entry⟩,
            s.system.nonces) := by
  intro again events accepted drops
  have shown : (runs step (new 1 0) drops).map (·.system.tasks.length) = some 1 := by
    decide +kernel
  obtain ⟨s, ran, one⟩ := Option.map_eq_some_iff.mp shown
  have lived : ∃ last, runs Life.step accepted events = some last :=
    Option.isSome_iff_exists.mp (by decide +kernel)
  obtain ⟨last, lived⟩ := lived
  refine ⟨⟨by decide +kernel, ?_⟩, s, ran, one, ?_⟩
  · exact bounded_submissions.1 sampleMessage 0 accepted last events rfl rfl lived
  · exact bounded_submissions.2 s ⟨1, 0, drops, ran⟩

/-! ## Acceptable replacements -/

/-- Every resubmission is one a node accepts. -/
def Acceptable (s : FeeSystem) (event : FeeEvent) : Prop :=
  ∀ replacement ∈ s.resubmission event, replacement.2.Replaces replacement.1

instance (s : FeeSystem) (event : FeeEvent) : Decidable (s.Acceptable event) :=
  inferInstanceAs (Decidable (∀ _ ∈ s.resubmission event, _))

/-- The tip that is bumped is the base fee, or larger by at least five wei. -/
def TipCarriesTotal (s : FeeSystem) (event : FeeEvent) : Prop :=
  ∀ pending ∈ s.handles event,
    pending.fee.priorityFee = 2_000_000_000 ∨ 2_000_000_005 ≤ pending.fee.priorityFee

instance (s : FeeSystem) (event : FeeEvent) : Decidable (s.TipCarriesTotal event) :=
  inferInstanceAs (Decidable (∀ _ ∈ s.handles event, _))

theorem acceptable_iff (sound : Sound s) (event : FeeEvent) :
    s.Acceptable event ↔ s.TipCarriesTotal event := by
  cases handled : s.handles event with
  | none => simp [Acceptable, TipCarriesTotal, resubmission, handled]
  | some pending =>
      obtain ⟨old, new, resubmitted, oldTip, oldTotal, newTip, newTotal⟩ :=
        resubmission_of_handles sound handled
      obtain ⟨i, nowMs, msg, call, rfl, found⟩ := handles_spec handled
      have floor := (within_retrying sound (List.mem_of_getElem? found)).floor
      rw [initialPriorityFee] at floor
      simp only [Acceptable, TipCarriesTotal, resubmitted, handled, Option.mem_some_iff,
        forall_eq', TxEip1559.Replaces, oldTip, oldTotal, newTip, newTotal, initialBaseFee]
      omega

/-- Along every run, every replacement is acceptable exactly when every bumped tip carries
    the total. -/
theorem replacements_acceptable_iff (chainId currentNonce : ℕ) (events : List FeeEvent) :
    EachStep step Acceptable (new chainId currentNonce) events ↔
      EachStep step TipCarriesTotal (new chainId currentNonce) events := by
  have preserves : ∀ s event s', Sound s → step s event = some s' → Sound s' :=
    fun s event s' sound stepped => sound_step sound (step_spec stepped)
  exact eachStep_congr preserves (fun s event sound => acceptable_iff sound event)
    (sound_new chainId currentNonce)

/-- After one quick confirmation the next message is quoted 1.5 Gwei; its replacement
    raises the total from 3.5 to 3.8 Gwei. -/
theorem replacement_too_cheap :
    let events := sends 0 sampleMessage ++ confirms 0 0 nanosPerSec ++ sends 1 sampleMessage ++
      [.system (.task 1 0 (.watched false))]
    let drop : FeeEvent := .system (.task 1 0 .ready)
    ((runs step (new 1 0) events).bind fun s => s.resubmission drop).map
      (fun (old, new) => (old.maxFeePerGas, new.maxFeePerGas)) =
      some (3_500_000_000, 3_800_000_000) ∧
    ¬ EachStep step Acceptable (new 1 0) (events ++ [drop, drop]) := by
  decide +kernel

/-! ## The cap -/

/-- The transaction an event hands to the chain. -/
def submits (s : FeeSystem) : FeeEvent → Option TxEip1559
  | .system (.task i nowMs answer) =>
      (s.system.sends (.task i nowMs answer)).bind fun _ => s.upcoming i
  | _ => none

def UnderCap (s : FeeSystem) (event : FeeEvent) : Prop :=
  ∀ tx ∈ s.submits event, tx.maxPriorityFeePerGas ≤ maxPriorityFee

instance (s : FeeSystem) (event : FeeEvent) : Decidable (s.UnderCap event) :=
  inferInstanceAs (Decidable (∀ _ ∈ s.submits event, _))

/-- A tip that is bumped is small enough to stay under the cap. -/
def BumpsUnderCap (s : FeeSystem) (event : FeeEvent) : Prop :=
  ∀ pending ∈ s.handles event, pending.fee.priorityFee ≤ 83_333_333_334

instance (s : FeeSystem) (event : FeeEvent) : Decidable (s.BumpsUnderCap event) :=
  inferInstanceAs (Decidable (∀ _ ∈ s.handles event, _))

/-- The invariant of runs that bump under the cap. -/
structure Capped (s : FeeSystem) : Prop where
  sound : Sound s
  fees : ∀ task ∈ s.system.tasks, task.Fees fun fee _ => fee.priorityFee ≤ maxPriorityFee

theorem capped_new (chainId currentNonce : ℕ) : Capped (new chainId currentNonce) where
  sound := sound_new chainId currentNonce
  fees := by simp [new, System.new]

theorem capped_step (capped : Capped s) (under : s.BumpsUnderCap event)
    (stepped : Stepped s event s') : Capped s' := by
  refine ⟨sound_step capped.sound stepped, ?_⟩
  refine tasks_step stepped capped.fees (fun _ => trivial) trivial ?_ ?_
  · intro i nowMs answer task next nonces same found unpriced advanced
    have member := List.mem_of_getElem? found
    have bumps : ∀ msg pending call fee, answer = .ready → task = ⟨.retrying msg pending, call⟩ →
        pending.fee.priorityFee ≤ maxPriorityFee → bumpFee pending.fee = some fee →
        fee.priorityFee ≤ maxPriorityFee := by
      rintro msg pending call fee rfl rfl - raised
      have handled : s.handles event = some pending := by simp [same, handles, found]
      have small := under pending handled
      rw [bumpFee_of_inRange (within_retrying capped.sound member).inRange] at raised
      cases raised
      change pending.fee.priorityFee + pending.fee.priorityFee * 20 / 100 ≤ maxPriorityFee
      rw [maxPriorityFee]
      omega
    exact fees_advanced (capped.sound.counted task member) (capped.fees task member) unpriced bumps
      advanced
  · intro i base congestion priority priorityFee known scaled msg nonce
    exact (quoted_bounds (capped.sound.read i base known) scaled).2

theorem upcoming_spec {i : ℕ} {tx : TxEip1559} (next : s.upcoming i = some tx) :
    ∃ msg fee nonce count call,
      s.system.tasks[i]? = some ⟨.iterating msg fee nonce count, call⟩ ∧
        tx.maxPriorityFeePerGas = fee.priorityFee := by
  unfold upcoming at next
  split at next
  · rename_i msg fee nonce count call found
    obtain ⟨total, -, rfl⟩ := Option.map_eq_some_iff.mp next
    exact ⟨msg, fee, nonce, count, call, found, rfl⟩
  · cases next

theorem underCap_of_capped (capped : Capped s) (event : FeeEvent) : s.UnderCap event := by
  intro tx submitted
  unfold submits at submitted
  split at submitted
  · obtain ⟨nonce, -, next⟩ := Option.bind_eq_some_iff.mp submitted
    obtain ⟨msg, fee, nonce, count, call, found, tip⟩ := upcoming_spec next
    rw [tip]
    exact capped.fees _ (List.mem_of_getElem? found)
  · cases submitted

/-- A run whose bumps stay under the cap submits nothing above it. -/
theorem cap_holds (chainId currentNonce : ℕ) (events : List FeeEvent)
    (small : EachStep step BumpsUnderCap (new chainId currentNonce) events) :
    EachStep step UnderCap (new chainId currentNonce) events := by
  refine EachStep.of_invariant ?_ ?_ (capped_new chainId currentNonce) small
  · exact fun s event s' capped under stepped => capped_step capped under (step_spec stepped)
  · exact fun s event capped _ => underCap_of_capped capped event

/-- The first transaction is dropped and replaced.  Three slow confirmations later the quote has
    come to the cap, and it is sent without a bump. -/
theorem cap_holds_at_cap :
    let msg := { sampleMessage with priority := 100 }
    let dropped := sends 0 msg ++ [.system (.task 0 0 (.watched false))]
    let events := sends 0 msg ++ replaces 0 ++ confirms 0 0 (60 * nanosPerSec) ++ sends 1 msg ++
      confirms 1 1 (60 * nanosPerSec) ++ sends 2 msg ++ confirms 2 2 (60 * nanosPerSec) ++
      sends 3 msg
    ((runs step (new 1 0) dropped).bind (·.handles (.system (.task 0 0 .ready)))).map
      (·.fee.priorityFee) = some 4_000_000_000 ∧
    (runs step (new 1 0) events).isSome ∧ EachStep step UnderCap (new 1 0) events := by
  intro msg dropped events
  exact ⟨by decide +kernel, by decide +kernel, cap_holds 1 0 events (by decide +kernel)⟩

/-- The last of these transactions, dropped, is replaced by one with a tip of 120 Gwei. -/
theorem cap_exceeded_by_replacement :
    let msg := { sampleMessage with priority := 100 }
    let events := sends 0 msg ++ confirms 0 0 (60 * nanosPerSec) ++ sends 1 msg ++
      confirms 1 1 (60 * nanosPerSec) ++ sends 2 msg ++ confirms 2 2 (60 * nanosPerSec) ++
      sends 3 msg ++ [.system (.task 3 0 (.watched false)), .system (.task 3 0 .ready)]
    let sent : FeeEvent := .system (.task 3 0 .ready)
    ((runs step (new 1 0) events).bind fun s => s.submits sent).map (·.maxPriorityFeePerGas) =
      some 120_000_000_000 ∧
    ¬ EachStep step UnderCap (new 1 0) (events ++ [sent]) := by
  decide +kernel

end FeeSystem

end Bulkmail.Ethereum
