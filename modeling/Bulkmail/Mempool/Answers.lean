import Bulkmail.Mempool.Locking

/-! # What the handles answer

The threads under the lock, with what their queries compute: the variables of
`estimated_blocks_to_confirm` while it goes from its first read to its second, and the
answers returned so far.  However the threads interleave, their answers are those of a
tracker that applies every event and answers every query in one piece, each query in the
turn in which it returns.

The order in which the account map yields its values is part of the map: a write may
change it, and reads of the same map see the same order.
-/

namespace Bulkmail.Mempool

open Library MempoolInner

inductive Answer where
  | classification (found : Option TxClassification)
  | isMarketable (found : Option Bool)
  | gasAhead (gas : Option ℕ)
  | estimatedBlocksToConfirm (blocks : Option ℕ)
  | currentBaseFee (fee : ℕ)
  | privateFlowRatio (ratio : Float)
  | priorityQueue (entries : List PriorityKey)
  | lastBlockGasLimit (gas : ℕ)
  | findTxByAddrAndNonce (found : Option PendingTx)

/-- The whole query on one state.  A result of `none` is a panic. -/
def Query.answer (s : MempoolInner) (values : List AccountQueue) : Query → Option Answer
  | .classification id => (s.classification values id).map .classification
  | .isMarketable id => (s.isMarketable values id).map .isMarketable
  | .gasAhead id => (s.gasAhead values id).map .gasAhead
  | .estimatedBlocksToConfirm id =>
      (s.estimatedBlocksToConfirm values id).map .estimatedBlocksToConfirm
  | .currentBaseFee => some (.currentBaseFee s.currentBaseFee)
  | .privateFlowRatio => some (.privateFlowRatio s.privateFlowRatio)
  | .priorityQueue => some (.priorityQueue (s.priorityQueue.sort (· ≤ ·)))
  | .lastBlockGasLimit => some (.lastBlockGasLimit s.lastBlockGasLimit)
  | .findTxByAddrAndNonce addr nonce =>
      some (.findTxByAddrAndNonce (s.findTxByAddrAndNonce addr nonce))

/-- The variables of `estimated_blocks_to_confirm`, and what was returned before. -/
structure Locals where
  tx : Option PendingTx
  gasAhead : Option ℕ
  answers : List Answer

namespace Locals

variable (s : MempoolInner) (values : List AccountQueue)

def respond (locals : Locals) (answer : Answer) : Locals :=
  { locals with answers := locals.answers ++ [answer] }

/-- What a thread that goes on from the position has computed. -/
def after (locals : Locals) : Position → Locals
  | .holding (.estimatedBlocksToConfirm id) =>
      match findTxById values id with
      | none => locals.respond (.estimatedBlocksToConfirm none)
      | some tx => { locals with tx := some tx }
  | .holding query =>
      match query.answer s values with
      | none => locals
      | some answer => locals.respond answer
  | .holdingBoth id => { locals with gasAhead := (s.gasAhead values id).join }
  | .finishing =>
      match locals.tx with
      | none => locals
      | some tx =>
          locals.respond (.estimatedBlocksToConfirm (locals.gasAhead.map (s.blocksToConfirm tx)))
  | .idle | .asking _ | .askingAgain _ | .gone => locals

end Locals

structure AnsweringLock where
  lock : Lock
  order : List AccountQueue
  calls : List Locals

inductive Turn where
  /-- The tracker goes on; a write leaves the map in this order. -/
  | tracker (order : List AccountQueue)
  | handle (i : ℕ)
  deriving DecidableEq

namespace AnsweringLock

def new (inner : MempoolInner) (order : List AccountQueue) (events : List MempoolEvent)
    (todos : List (List Query)) : AnsweringLock :=
  ⟨.new inner events todos, order, todos.map fun _ => ⟨none, none, []⟩⟩

def step (s : AnsweringLock) : Turn → Option AnsweringLock
  | .tracker order =>
      s.lock.stepTracker.bind fun lock =>
        match s.lock.tracker with
        | .holding _ => if lock.inner.Yields order then some { s with lock, order } else none
        | .receiving | .asking _ | .gone => some { s with lock }
  | .handle i => do
      let thread ← s.lock.handles[i]?
      let locals ← s.calls[i]?
      let lock ← s.lock.step (.handle i s.order)
      return { s with
        lock, calls := s.calls.set i (locals.after s.lock.inner s.order thread.position) }

end AnsweringLock

/-! ## The tracker in one piece -/

structure AtomicCaller where
  todo : List Query
  answers : List Answer
  gone : Bool

structure AtomicTracker where
  inner : MempoolInner
  order : List AccountQueue
  poisoned : Bool
  events : List MempoolEvent
  callers : List AtomicCaller

/-- One query, from the call to the answer or the panic. -/
def AtomicCaller.ask (poisoned : Bool) (s : MempoolInner) (values : List AccountQueue)
    (caller : AtomicCaller) : Option AtomicCaller :=
  if caller.gone then none
  else
    match caller.todo with
    | [] => none
    | query :: rest =>
        match if poisoned then none else query.answer s values with
        | none => some { caller with todo := rest, gone := true }
        | some answer => some { caller with todo := rest, answers := caller.answers ++ [answer] }

namespace AtomicTracker

def new (inner : MempoolInner) (order : List AccountQueue) (events : List MempoolEvent)
    (todos : List (List Query)) : AtomicTracker :=
  ⟨inner, order, false, events, todos.map fun todo => ⟨todo, [], false⟩⟩

/-- One event, or one query of a thread. -/
def step (a : AtomicTracker) : Turn → Option AtomicTracker
  | .tracker order =>
      if a.poisoned then none
      else
        match a.events with
        | [] => none
        | event :: rest =>
            let written := MempoolTracker.step a.inner event
            let inner := written.getD a.inner
            if inner.Yields order then
              some { a with inner, order, poisoned := written.isNone, events := rest }
            else none
  | .handle i =>
      a.callers[i]?.bind fun caller =>
        (caller.ask a.poisoned a.inner a.order).map fun next =>
          { a with callers := a.callers.set i next }

end AtomicTracker

/-! ## Every turn in one piece or in none -/

variable {poisoned readable : Bool} {s : MempoolInner} {values : List AccountQueue}

theorem Query.isSome_answer (query : Query) :
    (query.answer s values).isSome = query.returns s values := by
  cases query with
  | classification | isMarketable | gasAhead | estimatedBlocksToConfirm =>
      simp only [Query.answer, Query.returns, Option.isSome_map]
  | currentBaseFee | privateFlowRatio | priorityQueue | lastBlockGasLimit
  | findTxByAddrAndNonce => rfl

/-- What a thread still has to do, with the query it is in, and what it has answered. -/
inductive Serves (poisoned : Bool) (s : MempoolInner) (values : List AccountQueue) :
    HandleThread → Locals → AtomicCaller → Prop where
  | idle {todo locals} : Serves poisoned s values ⟨.idle, todo⟩ locals ⟨todo, locals.answers, false⟩
  | asking {query todo locals} : Serves poisoned s values
      ⟨.asking query, todo⟩ locals ⟨query :: todo, locals.answers, false⟩
  | holding {query todo locals} : poisoned = false → Serves poisoned s values
      ⟨.holding query, todo⟩ locals ⟨query :: todo, locals.answers, false⟩
  | askingAgain {id tx gas todo answers} : poisoned = false → findTxById values id = some tx →
      Serves poisoned s values ⟨.askingAgain id, todo⟩ ⟨some tx, gas, answers⟩
        ⟨.estimatedBlocksToConfirm id :: todo, answers, false⟩
  | holdingBoth {id tx gas todo answers} : poisoned = false → findTxById values id = some tx →
      Serves poisoned s values ⟨.holdingBoth id, todo⟩ ⟨some tx, gas, answers⟩
        ⟨.estimatedBlocksToConfirm id :: todo, answers, false⟩
  | finishing {id tx gas todo answers} : poisoned = false → findTxById values id = some tx →
      s.gasAhead values id = some gas →
      Serves poisoned s values ⟨.finishing, todo⟩ ⟨some tx, gas, answers⟩
        ⟨.estimatedBlocksToConfirm id :: todo, answers, false⟩
  | gone {todo locals} : Serves poisoned s values ⟨.gone, todo⟩ locals ⟨todo, locals.answers, true⟩

namespace Serves

variable {thread next : HandleThread} {locals : Locals} {caller : AtomicCaller}

/-- Without a guard a thread depends on nothing that a write changes. -/
theorem of_guards_eq_zero (serves : Serves poisoned s values thread locals caller)
    (free : thread.position.guards = 0) (poisoned' : Bool) (s' : MempoolInner)
    (values' : List AccountQueue) : Serves poisoned' s' values' thread locals caller := by
  cases serves with
  | idle => exact .idle
  | asking => exact .asking
  | gone => exact .gone
  | holding | askingAgain | holdingBoth | finishing => simp [Position.guards] at free

theorem answers_eq (serves : Serves poisoned s values thread locals caller) :
    caller.answers = locals.answers := by
  cases serves <;> rfl

theorem ask_cons {query : Query} {todo : List Query} {answers : List Answer} :
    AtomicCaller.ask false s values ⟨query :: todo, answers, false⟩ =
      match query.answer s values with
      | none => some ⟨todo, answers, true⟩
      | some answer => some ⟨todo, answers ++ [answer], false⟩ := by
  simp only [AtomicCaller.ask]
  cases query.answer s values <;> rfl

/-- A query under one guard is answered when the guard is given back. -/
theorem answered {query : Query} {todo : List Query} :
    ∃ caller', AtomicCaller.ask false s values ⟨query :: todo, locals.answers, false⟩ =
        some caller' ∧
      Serves false s values ⟨if query.returns s values then .idle else .gone, todo⟩
        (match query.answer s values with
          | none => locals
          | some answer => locals.respond answer) caller' := by
  rw [ask_cons, ← query.isSome_answer]
  cases query.answer s values with
  | none => exact ⟨_, rfl, .gone⟩
  | some answer => exact ⟨_, rfl, .idle⟩

/-- What the two reads of `estimated_blocks_to_confirm` have found is the answer of one. -/
theorem estimate_eq {id : TxId} {tx : PendingTx} {gas : Option ℕ}
    (found : findTxById values id = some tx) (ahead : s.gasAhead values id = some gas) :
    Query.answer s values (.estimatedBlocksToConfirm id) =
      some (.estimatedBlocksToConfirm (gas.map (s.blocksToConfirm tx))) := by
  simp [Query.answer, estimatedBlocksToConfirm, found, ahead]

theorem advance (serves : Serves poisoned s values thread locals caller)
    (advanced : thread.advance readable poisoned s values = some next) :
    ∃ caller', (caller' = caller ∨ caller.ask poisoned s values = some caller') ∧
      Serves poisoned s values next (locals.after s values thread.position) caller' := by
  cases serves with
  | @idle todo locals =>
      cases todo with
      | nil => cases advanced
      | cons query rest =>
          cases advanced
          exact ⟨_, .inl rfl, .asking⟩
  | @asking query todo locals =>
      obtain ⟨-, advanced⟩ := Option.ite_none_right_eq_some.mp advanced
      cases advanced
      cases poisoned with
      | true => exact ⟨_, .inr rfl, .gone⟩
      | false => exact ⟨_, .inl rfl, .holding rfl⟩
  | @holding query todo locals alive =>
      subst alive
      cases query with
      | estimatedBlocksToConfirm id =>
          simp only [HandleThread.advance] at advanced
          simp only [Locals.after]
          cases found : findTxById values id with
          | none =>
              rw [found] at advanced
              cases advanced
              refine ⟨_, .inr ?_, .idle⟩
              simp [ask_cons, Query.answer, estimatedBlocksToConfirm, found, Locals.respond]
          | some tx =>
              rw [found] at advanced
              cases advanced
              exact ⟨_, .inl rfl, .askingAgain rfl found⟩
      | classification | isMarketable | gasAhead | currentBaseFee | privateFlowRatio
      | priorityQueue | lastBlockGasLimit | findTxByAddrAndNonce =>
          cases advanced
          obtain ⟨caller', asked, served⟩ := answered
          exact ⟨caller', .inr asked, served⟩
  | askingAgain alive found =>
      subst alive
      obtain ⟨-, advanced⟩ := Option.ite_none_right_eq_some.mp advanced
      cases advanced
      exact ⟨_, .inl rfl, .holdingBoth rfl found⟩
  | @holdingBoth id tx gas todo answers alive found =>
      subst alive
      cases advanced
      simp only [Locals.after]
      cases ahead : s.gasAhead values id with
      | none =>
          refine ⟨_, .inr ?_, .gone⟩
          simp [ask_cons, Query.answer, estimatedBlocksToConfirm, found, ahead]
      | some gas => exact ⟨_, .inl rfl, .finishing rfl found ahead⟩
  | finishing alive found ahead =>
      subst alive
      cases advanced
      refine ⟨_, .inr ?_, .idle⟩
      rw [ask_cons, estimate_eq found ahead]
      rfl
  | gone => cases advanced

end Serves

/-- The event the tracker thread has received and not yet applied. -/
def TrackerThread.taken : TrackerThread → List MempoolEvent
  | .asking event | .holding event => [event]
  | .receiving | .gone => []

namespace AnsweringLock

variable {s t : AnsweringLock} {a : AtomicTracker} {turn : Turn} {order : List AccountQueue}

/-- Everything a turn of the tracker can do. -/
inductive TrackerTurn (s : AnsweringLock) (order : List AccountQueue) : AnsweringLock → Prop where
  | asks {event rest} : s.lock.tracker = .receiving → s.lock.events = event :: rest →
      TrackerTurn s order
        { s with lock := { s.lock with tracker := .asking event, events := rest } }
  | granted {event} : s.lock.tracker = .asking event → s.lock.guards = 0 →
      s.lock.poisoned = false →
      TrackerTurn s order { s with lock := { s.lock with tracker := .holding event } }
  | refused {event} : s.lock.tracker = .asking event → s.lock.poisoned = true →
      TrackerTurn s order { s with lock := { s.lock with tracker := .gone } }
  | writes {event inner} : s.lock.tracker = .holding event →
      MempoolTracker.step s.lock.inner event = some inner → inner.Yields order →
      TrackerTurn s order
        { s with lock := { s.lock with tracker := .receiving, inner }, order }
  | panics {event} : s.lock.tracker = .holding event →
      MempoolTracker.step s.lock.inner event = none → s.lock.inner.Yields order →
      TrackerTurn s order
        { s with lock := { s.lock with tracker := .gone, poisoned := true }, order }

theorem tracker_turn_spec (stepped : s.step (.tracker order) = some t) : TrackerTurn s order t := by
  obtain ⟨lock, moved, rest⟩ := Option.bind_eq_some_iff.mp stepped
  cases tracker : s.lock.tracker with
  | receiving =>
      simp only [Lock.stepTracker, tracker] at moved rest
      cases rest
      split at moved
      · cases moved
      · rename_i event rest pending
        cases moved
        exact .asks tracker pending
  | asking event =>
      simp only [Lock.stepTracker, tracker] at moved rest
      cases rest
      obtain ⟨free, moved⟩ := Option.ite_none_right_eq_some.mp moved
      cases moved
      by_cases dead : s.lock.poisoned = true
      · rw [if_pos dead]
        exact .refused tracker dead
      · rw [if_neg dead]
        exact .granted tracker free (Bool.not_eq_true _ ▸ dead)
  | holding event =>
      simp only [Lock.stepTracker, tracker] at moved rest
      obtain ⟨yields, rest⟩ := Option.ite_none_right_eq_some.mp rest
      cases rest
      cases written : MempoolTracker.step s.lock.inner event with
      | none =>
          rw [written] at moved
          cases moved
          exact .panics tracker written yields
      | some inner =>
          rw [written] at moved
          cases moved
          exact .writes tracker written yields
  | gone => simp [Lock.stepTracker, tracker] at moved

theorem handle_turn_spec {i : ℕ} (stepped : s.step (.handle i) = some t) :
    ∃ thread locals next, s.lock.handles[i]? = some thread ∧ s.calls[i]? = some locals ∧
      thread.advance s.lock.readable s.lock.poisoned s.lock.inner s.order = some next ∧
      t = { s with
        lock := { s.lock with handles := s.lock.handles.set i next }
        calls := s.calls.set i (locals.after s.lock.inner s.order thread.position) } := by
  obtain ⟨thread, found, rest⟩ := Option.bind_eq_some_iff.mp stepped
  obtain ⟨locals, call, rest⟩ := Option.bind_eq_some_iff.mp rest
  obtain ⟨lock, moved, rest⟩ := Option.bind_eq_some_iff.mp rest
  obtain ⟨other, next, -, same, advanced, rfl⟩ := Lock.handle_step_spec moved
  obtain rfl := Option.some.inj (found.symm.trans same)
  exact ⟨thread, locals, next, found, call, advanced, (Option.some.inj rest).symm⟩

/-- At an index of the three lists, or past their ends. -/
inductive ServesAt (poisoned : Bool) (s : MempoolInner) (values : List AccountQueue) :
    Option HandleThread → Option Locals → Option AtomicCaller → Prop where
  | nowhere : ServesAt poisoned s values none none none
  | here {thread locals caller} : Serves poisoned s values thread locals caller →
      ServesAt poisoned s values (some thread) (some locals) (some caller)

structure Mirrors (s : AnsweringLock) (a : AtomicTracker) : Prop where
  inner : a.inner = s.lock.inner
  order : a.order = s.order
  poisoned : a.poisoned = s.lock.poisoned
  events : a.events = s.lock.tracker.taken ++ s.lock.events
  -- a writer is alone, and the last one if it panics
  alone : ∀ event, s.lock.tracker = .holding event → s.lock.guards = 0
  last : s.lock.poisoned = true → s.lock.tracker = .gone
  serves : ∀ i : ℕ, ServesAt s.lock.poisoned s.lock.inner s.order
    s.lock.handles[i]? s.calls[i]? a.callers[i]?

theorem mirrors_new (inner : MempoolInner) (order : List AccountQueue)
    (events : List MempoolEvent) (todos : List (List Query)) :
    Mirrors (new inner order events todos) (.new inner order events todos) where
  inner := rfl
  order := rfl
  poisoned := rfl
  events := rfl
  alone := by simp [new, Lock.new]
  last := by simp [new, Lock.new]
  serves i := by
    simp only [new, Lock.new, AtomicTracker.new, List.getElem?_map]
    cases todos[i]? with
    | none => exact .nowhere
    | some todo => exact .here .idle

/-- No guard is out while the tracker writes, so what it writes disturbs no thread. -/
theorem Mirrors.serves_of_alone (mirrors : Mirrors s a) (alone : s.lock.guards = 0)
    (poisoned : Bool) (inner : MempoolInner) (order : List AccountQueue) (i : ℕ) :
    ServesAt poisoned inner order s.lock.handles[i]? s.calls[i]? a.callers[i]? := by
  have here := mirrors.serves i
  generalize found : s.lock.handles[i]? = thread at here ⊢
  generalize s.calls[i]? = locals at here ⊢
  generalize a.callers[i]? = caller at here ⊢
  cases here with
  | nowhere => exact .nowhere
  | here serves =>
      have free := List.sum_eq_zero_iff.mp alone _
        (List.mem_map_of_mem (List.mem_of_getElem? found))
      exact .here (serves.of_guards_eq_zero free _ _ _)

theorem Mirrors.writer {event : MempoolEvent} (mirrors : Mirrors s a)
    (holding : s.lock.tracker = .holding event) :
    a.poisoned = false ∧ a.events = event :: s.lock.events := by
  constructor
  · rw [mirrors.poisoned, ← Bool.not_eq_true]
    intro dead
    cases holding.symm.trans (mirrors.last dead)
  · simp [mirrors.events, holding, TrackerThread.taken]

theorem mirrors_tracker (mirrors : Mirrors s a) (stepped : s.step (.tracker order) = some t) :
    ∃ a', (a' = a ∨ a.step (.tracker order) = some a') ∧ Mirrors t a' := by
  cases tracker_turn_spec stepped with
  | @asks event rest receiving pending =>
      refine ⟨a, .inl rfl, { mirrors with events := ?_, alone := ?_, last := ?_ }⟩
      · simp [mirrors.events, receiving, pending, TrackerThread.taken]
      · simp
      · intro dead
        cases receiving.symm.trans (mirrors.last dead)
  | @granted event asking free alive =>
      refine ⟨a, .inl rfl, { mirrors with events := ?_, alone := ?_, last := ?_ }⟩
      · simp [mirrors.events, asking, TrackerThread.taken]
      · exact fun _ _ => free
      · intro dead
        cases alive.symm.trans dead
  | refused asking dead => cases asking.symm.trans (mirrors.last dead)
  | @writes event inner holding written yields =>
      obtain ⟨alive, events⟩ := mirrors.writer holding
      refine ⟨{ a with inner, order, events := s.lock.events },
        .inr ?_, ?_⟩
      · simp [AtomicTracker.step, alive, events, mirrors.inner, written, yields]
      · exact {
          inner := rfl
          order := rfl
          poisoned := mirrors.poisoned
          events := rfl
          alone := by simp
          last := by simp [← mirrors.poisoned, alive]
          serves := mirrors.serves_of_alone (mirrors.alone event holding) _ _ _ }
  | @panics event holding written yields =>
      obtain ⟨alive, events⟩ := mirrors.writer holding
      refine ⟨{ a with order, poisoned := true, events := s.lock.events },
        .inr ?_, ?_⟩
      · simp [AtomicTracker.step, alive, events, mirrors.inner, written, yields]
      · exact {
          inner := mirrors.inner
          order := rfl
          poisoned := rfl
          events := rfl
          alone := by simp
          last := by simp
          serves := mirrors.serves_of_alone (mirrors.alone event holding) _ _ _ }

/-- A guard is given out only while the tracker does not write. -/
theorem guards_set_eq_zero {i : ℕ} {thread next : HandleThread} {event : MempoolEvent}
    (writing : s.lock.tracker = .holding event) (free : s.lock.guards = 0)
    (found : s.lock.handles[i]? = some thread)
    (advanced : thread.advance s.lock.readable s.lock.poisoned s.lock.inner s.order = some next) :
    ((s.lock.handles.set i next).map (·.position.guards)).sum = 0 := by
  have none_ := List.sum_eq_zero_iff.mp free _ (List.mem_map_of_mem (List.mem_of_getElem? found))
  have blocked : s.lock.readable = false := by simp [Lock.readable, writing]
  have still : next.position.guards = 0 := by
    rw [blocked] at advanced
    obtain ⟨position, todo⟩ := thread
    cases position with
    | idle =>
        cases todo with
        | nil => cases advanced
        | cons =>
            cases advanced
            rfl
    | asking | gone => cases advanced
    | holding | askingAgain | holdingBoth | finishing => simp [Position.guards] at none_
  have moved := sum_map_set_add (·.position.guards) found next
  have before : (s.lock.handles.map (·.position.guards)).sum = 0 := free
  omega

theorem mirrors_handle {i : ℕ} (mirrors : Mirrors s a) (stepped : s.step (.handle i) = some t) :
    ∃ a', (a' = a ∨ a.step (.handle i) = some a') ∧ Mirrors t a' := by
  obtain ⟨thread, locals, next, found, call, advanced, rfl⟩ := handle_turn_spec stepped
  have here := mirrors.serves i
  rw [found, call] at here
  generalize same : a.callers[i]? = caller at here
  cases here with
  | @here _ _ caller serves =>
      obtain ⟨caller', moved, served⟩ := serves.advance advanced
      have after : ∀ j : ℕ, ServesAt s.lock.poisoned s.lock.inner s.order
          (s.lock.handles.set i next)[j]?
          (s.calls.set i (locals.after s.lock.inner s.order thread.position))[j]?
          (a.callers.set i caller')[j]? := by
        intro j
        by_cases here : i = j
        · subst here
          rw [List.getElem?_set_self (List.getElem?_eq_some_iff.mp found).1,
            List.getElem?_set_self (List.getElem?_eq_some_iff.mp call).1,
            List.getElem?_set_self (List.getElem?_eq_some_iff.mp same).1]
          exact .here served
        · rw [List.getElem?_set_ne here, List.getElem?_set_ne here, List.getElem?_set_ne here]
          exact mirrors.serves j
      refine ⟨{ a with callers := a.callers.set i caller' }, ?_, { mirrors with
        alone := fun event writing =>
          guards_set_eq_zero writing (mirrors.alone event writing) found advanced
        serves := after }⟩
      cases moved with
      | inl unmoved =>
          left
          obtain ⟨inside, rfl⟩ := List.getElem?_eq_some_iff.mp same
          rw [unmoved, List.set_getElem_self]
      | inr asked =>
          right
          rw [← mirrors.poisoned, ← mirrors.inner, ← mirrors.order] at asked
          simp [AtomicTracker.step, same, asked]

/-- A turn is a turn of the tracker in one piece or none. -/
def InTurn (turn : Turn) (piece : Option Turn) : Prop := piece = none ∨ piece = some turn

theorem exists_atomic_run {inner : MempoolInner} {events : List MempoolEvent}
    {todos : List (List Query)} {turns : List Turn}
    (ran : runs step (new inner order events todos) turns = some s) :
    ∃ pieces, List.Forall₂ InTurn turns pieces ∧
      ∀ n t, runs step (new inner order events todos) (turns.take n) = some t →
        ∃ a, runs AtomicTracker.step (.new inner order events todos)
          (pieces.take n).reduceOption = some a ∧ Mirrors t a := by
  refine runs_simulation_stepwise (fun s turn t a mirrors stepped => ?_)
    (mirrors_new inner order events todos) ran
  have moves : ∃ a', (a' = a ∨ a.step turn = some a') ∧ Mirrors t a' := by
    cases turn with
    | tracker order => exact mirrors_tracker mirrors stepped
    | handle i => exact mirrors_handle mirrors stepped
  obtain ⟨a', same | moved, kept⟩ := moves
  · exact ⟨none, a', .inl rfl, same ▸ rfl, kept⟩
  · exact ⟨some turn, a', .inr rfl, by simp [runs, moved], kept⟩

end AnsweringLock

/-! ## Growing prefixes -/

/-- The queries have been answered one after another, each on the state after some of the
    events, never fewer than for the one before and at most so many. -/
inductive Observed (inner : MempoolInner) (events : List MempoolEvent) :
    ℕ → List Query → List Answer → Prop where
  | nothing {k} : Observed inner events k [] []
  | answered {j k asked answers query answer state order} :
      Observed inner events j asked answers → j ≤ k →
      runs MempoolTracker.step inner (events.take k) = some state → state.Yields order →
      query.answer state order = some answer →
      Observed inner events k (asked ++ [query]) (answers ++ [answer])

theorem AtomicCaller.ask_spec {caller next : AtomicCaller}
    (asked : caller.ask poisoned s values = some next) :
    ∃ query rest, caller.todo = query :: rest ∧ caller.gone = false ∧
      (next = { caller with todo := rest, gone := true } ∨
        ∃ answer, poisoned = false ∧ query.answer s values = some answer ∧
          next = { caller with todo := rest, answers := caller.answers ++ [answer] }) := by
  obtain ⟨here, asked⟩ := Option.ite_none_left_eq_some.mp asked
  have going : caller.gone = false := by simpa using here
  cases todo : caller.todo with
  | nil => simp [todo] at asked
  | cons query rest =>
      refine ⟨query, rest, rfl, going, ?_⟩
      simp only [todo] at asked
      split at asked
      · cases asked
        exact .inl rfl
      · rename_i answer given
        cases asked
        obtain ⟨alive, given⟩ := Option.ite_none_left_eq_some.mp given
        exact .inr ⟨answer, by simpa using alive, given, rfl⟩

namespace AtomicTracker

variable {start a b : AtomicTracker} {turn : Turn}

/-- What a thread has been answered since, with a query between that has panicked. -/
def Answered (start : AtomicTracker) (limit : ℕ) (before caller : AtomicCaller) : Prop :=
  ∃ asked lost answers k, before.todo = asked ++ lost ++ caller.todo ∧
    (caller.gone = false → lost = []) ∧ caller.answers = before.answers ++ answers ∧
    k ≤ limit ∧ Observed start.inner start.events k asked answers

structure Recorded (start : AtomicTracker) (applied : ℕ) (a : AtomicTracker) : Prop where
  left : a.events = start.events.drop applied
  bounded : applied ≤ start.events.length
  state : a.poisoned = false →
    runs MempoolTracker.step start.inner (start.events.take applied) = some a.inner
  yields : a.inner.Yields a.order
  answered : ∀ (i : ℕ) caller, a.callers[i]? = some caller →
    ∃ before, start.callers[i]? = some before ∧ Answered start applied before caller

theorem recorded_refl (yields : start.inner.Yields start.order) : Recorded start 0 start where
  left := rfl
  bounded := Nat.zero_le _
  state _ := rfl
  yields := yields
  answered i caller found :=
    ⟨caller, found, [], [], [], 0, rfl, fun _ => rfl, by rw [List.append_nil], le_rfl, .nothing⟩

theorem recorded_event {applied : ℕ} {order : List AccountQueue}
    (recorded : Recorded start applied a) (stepped : a.step (.tracker order) = some b) :
    Recorded start (applied + 1) b := by
  obtain ⟨alive, rest⟩ := Option.ite_none_left_eq_some.mp stepped
  have alive : a.poisoned = false := by simpa using alive
  have pending := recorded.left
  cases queue : a.events with
  | nil => simp [queue] at rest
  | cons event later =>
      simp only [queue] at rest
      obtain ⟨yields, moved⟩ := Option.ite_none_right_eq_some.mp rest
      cases moved
      rw [queue] at pending
      have more : applied < start.events.length := by
        by_contra over_
        rw [List.drop_eq_nil_of_le (by omega)] at pending
        cases pending
      have first := List.drop_eq_getElem_cons more
      obtain ⟨here, after⟩ := List.cons.inj (pending.trans first)
      refine ⟨after, more, fun written => ?_, yields, fun i caller found => ?_⟩
      · obtain ⟨next, written⟩ := Option.isSome_iff_exists.mp (by simpa using written)
        rw [List.take_succ_eq_append_getElem more, runs_append, recorded.state alive, ← here]
        simp [runs, written]
      · obtain ⟨before, here, asked, lost, answers, k, split, whole, given, le, observed⟩ :=
          recorded.answered i caller found
        exact ⟨before, here, asked, lost, answers, k, split, whole, given, by omega, observed⟩

theorem recorded_query {applied i : ℕ} (recorded : Recorded start applied a)
    (stepped : a.step (.handle i) = some b) : Recorded start applied b := by
  obtain ⟨caller, found, rest⟩ := Option.bind_eq_some_iff.mp stepped
  obtain ⟨next, asks, moved⟩ := Option.map_eq_some_iff.mp rest
  subst moved
  refine { recorded with answered := fun j other member => ?_ }
  by_cases here : i = j
  · subst here
    rw [List.getElem?_set_self (List.getElem?_eq_some_iff.mp found).1] at member
    obtain rfl := Option.some.inj member
    obtain ⟨before, listed, asked, lost, answers, k, split, whole, given, le, observed⟩ :=
      recorded.answered i caller found
    obtain ⟨query, rest, front, going, outcome⟩ := AtomicCaller.ask_spec asks
    obtain rfl := whole going
    refine ⟨before, listed, ?_⟩
    cases outcome with
    | inl panicked =>
        subst panicked
        exact ⟨asked, [query], answers, k, by simp [split, front], by simp, given, le, observed⟩
    | inr returned =>
        obtain ⟨answer, alive, answered, rfl⟩ := returned
        exact ⟨asked ++ [query], [], answers ++ [answer], applied, by simp [split, front],
          fun _ => rfl, by simp [given], le_rfl,
          observed.answered le (recorded.state alive) recorded.yields answered⟩
  · rw [List.getElem?_set_ne here] at member
    exact recorded.answered j other member

theorem exists_recorded {turns : List Turn} (yields : start.inner.Yields start.order)
    (ran : runs step start turns = some a) : ∃ applied, Recorded start applied a := by
  have keeps : ∀ a turn b, (∃ applied, Recorded start applied a) →
      step a turn = some b → ∃ applied, Recorded start applied b := by
    intro a turn b recorded stepped
    obtain ⟨applied, recorded⟩ := recorded
    cases turn with
    | tracker order => exact ⟨applied + 1, recorded_event recorded stepped⟩
    | handle i => exact ⟨applied, recorded_query recorded stepped⟩
  have last := runs_invariant keeps ⟨0, recorded_refl yields⟩ ran
  exact last

end AtomicTracker

namespace AnsweringLock

variable {s t : AnsweringLock} {a b : AtomicTracker} {inner : MempoolInner}
variable {order : List AccountQueue} {events : List MempoolEvent} {todos : List (List Query)}
variable {turns : List Turn}

/-- Both are in the same state, have the same events before them and have given the same
    answers. -/
structure Agrees (s : AnsweringLock) (a : AtomicTracker) : Prop where
  inner : a.inner = s.lock.inner
  poisoned : a.poisoned = s.lock.poisoned
  events : a.events = s.lock.tracker.taken ++ s.lock.events
  answers : a.callers.map (·.answers) = s.calls.map (·.answers)

theorem Mirrors.agrees (mirrors : Mirrors s a) : Agrees s a where
  inner := mirrors.inner
  poisoned := mirrors.poisoned
  events := mirrors.events
  answers := by
    refine List.ext_getElem? fun i => ?_
    have here := mirrors.serves i
    rw [List.getElem?_map, List.getElem?_map]
    generalize s.lock.handles[i]? = thread at here
    generalize s.calls[i]? = locals at here ⊢
    generalize a.callers[i]? = caller at here ⊢
    cases here with
    | nowhere => rfl
    | here serves => simp [serves.answers_eq]

/-- From `a` to `b` the thread has been answered some of what it had to ask, each answer after
    no fewer of the events than the one before. -/
def AnsweredSince (a b : AtomicTracker) (i : ℕ) : Prop :=
  ∀ before caller, a.callers[i]? = some before → b.callers[i]? = some caller →
    ∃ asked answers k, asked <+: before.todo ∧ caller.answers = before.answers ++ answers ∧
      k + b.events.length ≤ a.events.length ∧ Observed a.inner a.events k asked answers

theorem answeredSince_of_run (yields : a.inner.Yields a.order)
    (ran : runs AtomicTracker.step a turns = some b) (i : ℕ) : AnsweredSince a b i := by
  intro before caller here there
  obtain ⟨applied, recorded⟩ := AtomicTracker.exists_recorded yields ran
  obtain ⟨before', listed, asked, lost, answers, k, split, -, given, le, observed⟩ :=
    recorded.answered i caller there
  obtain rfl := Option.some.inj (here.symm.trans listed)
  refine ⟨asked, answers, k, ⟨lost ++ caller.todo, by simp [split]⟩, given, ?_, observed⟩
  have left := congrArg List.length recorded.left
  rw [List.length_drop] at left
  have bounded := recorded.bounded
  omega

/-- Some turns of the threads are the turns of a tracker that takes events and queries in one
    piece: after every turn the two agree, so that the piece of a query lies in the turn in
    which it returns, and what has returned before another query was called lies before it.
    From any moment on, what a thread is answered further is answered after more and more of
    the events that were not applied by then. -/
theorem answers_in_one_piece (yields : inner.Yields order)
    (ran : runs step (new inner order events todos) turns = some s) :
    ∃ pieces b, List.Forall₂ InTurn turns pieces ∧ Agrees s b ∧
      ∀ n t, runs step (new inner order events todos) (turns.take n) = some t →
        ∃ a, runs AtomicTracker.step (.new inner order events todos)
            (pieces.take n).reduceOption = some a ∧ Agrees t a ∧
          runs AtomicTracker.step a (pieces.drop n).reduceOption = some b ∧
          ∀ i, AnsweredSince a b i := by
  obtain ⟨pieces, inTurn, follows⟩ := exists_atomic_run ran
  obtain ⟨b, whole, mirrors⟩ := follows turns.length s (by rwa [List.take_length])
  rw [inTurn.length_eq, List.take_length] at whole
  refine ⟨pieces, b, inTurn, mirrors.agrees, fun n t ran' => ?_⟩
  obtain ⟨a, first, earlier⟩ := follows n t ran'
  have rest : runs AtomicTracker.step a (pieces.drop n).reduceOption = some b := by
    rw [← List.take_append_drop n pieces, List.reduceOption_append, runs_append, first] at whole
    exact whole
  obtain ⟨applied, recorded⟩ := AtomicTracker.exists_recorded yields first
  exact ⟨a, first, earlier.agrees, rest, answeredSince_of_run recorded.yields rest⟩

/-- An estimate with another thread's query between its two reads, and that thread again
    after a write. -/
theorem answers_in_one_piece_around_write :
    let inner := sampleRun 5 [.pendingTransaction (sampleTx 1 0 20 5)]
    let before : List AccountQueue := [⟨0, [some (sampleTx 1 0 20 5)]⟩]
    let after : List AccountQueue := [⟨0, [some (sampleTx 1 0 20 5), some (sampleTx 1 1 20 5)]⟩]
    let events : List MempoolEvent := [.pendingTransaction (sampleTx 1 1 20 5)]
    let todos : List (List Query) :=
      [[.estimatedBlocksToConfirm 0], [.currentBaseFee, .findTxByAddrAndNonce 1 1]]
    let turns : List Turn :=
      [.handle 0, .handle 0, .handle 0, .handle 1, .handle 1, .handle 1, .handle 0, .handle 0,
        .handle 0, .tracker [], .tracker [], .tracker after, .handle 1, .handle 1, .handle 1]
    ∃ s, runs step (new inner before events todos) turns = some s ∧
      s.calls.map (·.answers.length) = [1, 2] ∧
      ∃ pieces b, List.Forall₂ InTurn turns pieces ∧ Agrees s b ∧
        ∀ n t, runs step (new inner before events todos) (turns.take n) = some t →
          ∃ a, runs AtomicTracker.step (.new inner before events todos)
              (pieces.take n).reduceOption = some a ∧ Agrees t a ∧
            runs AtomicTracker.step a (pieces.drop n).reduceOption = some b ∧
            ∀ i, AnsweredSince a b i := by
  intro inner before after events todos turns
  have shown : (runs step (new inner before events todos) turns).map
      (fun s => s.calls.map (·.answers.length)) = some [1, 2] := by decide +kernel
  obtain ⟨s, ran, counts⟩ := Option.map_eq_some_iff.mp shown
  have yields : inner.Yields before := by decide +kernel
  exact ⟨s, ran, counts, answers_in_one_piece yields ran⟩

end AnsweringLock

end Bulkmail.Mempool
