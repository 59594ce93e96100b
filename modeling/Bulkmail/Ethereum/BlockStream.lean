import Bulkmail.Library.Channel
import Bulkmail.Library.Runs

/-! # Block notifications

How a block gets from the node to `Sender::run`.  `Chain::subscribe_new_blocks` spawns a
task that forwards headers from the subscription into a channel, and
`EthClient::subscribe_new_blocks` spawns another that forwards their numbers into a second
one, which `run` reads.  Both tasks end at the first failure, from either side; an error of
the subscription, also that of a receiver that lags behind, ends the whole stream.
-/

namespace Bulkmail.Ethereum

open Library

def blockChannelCapacity : Option ℕ := some 32

/-- What of a header is passed on. -/
structure Header where
  number : ℕ
  deriving DecidableEq, Repr

/-- A forwarding task: waiting for a value, waiting to send one, or over. -/
inductive Forwarder (α : Type) where
  | idle
  | holding (value : α)
  | gone
  deriving DecidableEq, Repr

def Forwarder.held {α : Type} : Forwarder α → List α
  | .holding value => [value]
  | _ => []

@[simp] theorem held_idle {α : Type} : (Forwarder.idle : Forwarder α).held = [] := rfl

@[simp] theorem held_holding {α : Type} (value : α) :
    (Forwarder.holding value).held = [value] := rfl

@[simp] theorem held_gone {α : Type} : (Forwarder.gone : Forwarder α).held = [] := rfl

structure BlockStream where
  /-- The headers the subscription has yielded. -/
  headers : List Header
  /-- The subscription has ended with an error. -/
  subscriptionFailed : Bool
  chainTask : Forwarder Header
  headerChannel : Channel Header blockChannelCapacity
  clientTask : Forwarder ℕ
  numberChannel : Channel ℕ blockChannelCapacity
  /-- `run` has returned `SubscriptionClosed`. -/
  subscriptionClosed : Bool

inductive StreamEvent where
  | header (header : Header)
  | subscriptionFails
  | chainSends
  | clientReceives
  | clientSends
  | runReceives
  /-- `run` returns with another error, or its future is dropped. -/
  | runEnds

namespace BlockStream

def new : BlockStream where
  headers := []
  subscriptionFailed := false
  chainTask := .idle
  headerChannel := .new _ 1
  clientTask := .idle
  numberChannel := .new _ 1
  subscriptionClosed := false

/-- The second task has a header to pass on, or comes to its end. -/
def clientReceived (s : BlockStream) (channel : Channel Header blockChannelCapacity) :
    Option Header → BlockStream
  | some header => { s with clientTask := .holding header.number, headerChannel := channel }
  | none =>
      { s with
        clientTask := .gone
        headerChannel := channel.dropReceiver
        numberChannel := s.numberChannel.dropSender }

/-- `run` has a block to sync for, or returns `SubscriptionClosed`. -/
def runReceived (s : BlockStream) (channel : Channel ℕ blockChannelCapacity) :
    Option ℕ → BlockStream
  | some _ => { s with numberChannel := channel }
  | none => { s with numberChannel := channel.dropReceiver, subscriptionClosed := true }

def step (s : BlockStream) : StreamEvent → Option BlockStream
  | .header header =>
      match s.chainTask with
      | .idle => some { s with headers := s.headers ++ [header], chainTask := .holding header }
      | _ => none
  | .subscriptionFails =>
      match s.chainTask with
      | .idle =>
          some { s with
            subscriptionFailed := true
            chainTask := .gone
            headerChannel := s.headerChannel.dropSender }
      | _ => none
  | .chainSends =>
      match s.chainTask with
      | .holding header =>
          (s.headerChannel.send header).map fun (ok, channel) =>
            if ok then { s with chainTask := .idle, headerChannel := channel }
            else { s with chainTask := .gone, headerChannel := channel.dropSender }
      | _ => none
  | .clientReceives =>
      match s.clientTask with
      | .idle =>
          s.headerChannel.recv.map fun (got, channel) => s.clientReceived channel got
      | _ => none
  | .clientSends =>
      match s.clientTask with
      | .holding number =>
          (s.numberChannel.send number).map fun (ok, channel) =>
            if ok then { s with clientTask := .idle, numberChannel := channel }
            else
              { s with
                clientTask := .gone
                headerChannel := s.headerChannel.dropReceiver
                numberChannel := channel.dropSender }
      | _ => none
  | .runReceives =>
      if s.numberChannel.listening then
        s.numberChannel.recv.map fun (got, channel) => s.runReceived channel got
      else none
  | .runEnds =>
      if s.numberChannel.listening then
        some { s with numberChannel := s.numberChannel.dropReceiver }
      else none

def Reachable (s : BlockStream) : Prop := ∃ events, runs step new events = some s

variable {s s' : BlockStream} {event : StreamEvent}

/-- The numbers between the subscription and `run`, oldest first. -/
def inTransit (s : BlockStream) : List ℕ :=
  s.numberChannel.queue ++ s.clientTask.held ++
    (s.headerChannel.queue ++ s.chainTask.held).map Header.number

structure Piped (s : BlockStream) : Prop where
  headerSenders : s.headerChannel.senders = if s.chainTask = .gone then 0 else 1
  numberSenders : s.numberChannel.senders = if s.clientTask = .gone then 0 else 1
  drained : s.numberChannel.listening = true → s.clientTask = .gone →
    s.chainTask = .gone ∧ s.headerChannel.queue = []
  open_ : s.clientTask ≠ .gone → s.headerChannel.listening = true
  failed : s.numberChannel.listening = true → s.chainTask = .gone → s.subscriptionFailed = true
  flow : s.numberChannel.listening = true →
    s.numberChannel.taken ++ s.inTransit = s.headers.map Header.number
  inOrder : s.numberChannel.taken <+: s.headers.map Header.number
  closed : s.subscriptionClosed = true → s.numberChannel.listening = false ∧
    s.subscriptionFailed = true ∧ s.chainTask = .gone ∧
    s.numberChannel.taken = s.headers.map Header.number

theorem piped_new : Piped new where
  headerSenders := by simp [new, Channel.new]
  numberSenders := by simp [new, Channel.new]
  drained := by simp [new]
  open_ := by simp [new, Channel.new]
  failed := by simp [new]
  flow := by simp [new, Channel.new, inTransit, Forwarder.held]
  inOrder := by simp [new, Channel.new]
  closed := by simp [new]

/-- Nothing has been closed while the first task is at work. -/
theorem Piped.not_closed (piped : Piped s) (working : s.chainTask ≠ .gone) :
    s.subscriptionClosed ≠ true :=
  fun closed => working (piped.closed closed).2.2.1

/-- The second task is at work as long as the first is and somebody listens. -/
theorem Piped.client_working (piped : Piped s) (working : s.chainTask ≠ .gone)
    (listening : s.numberChannel.listening = true) : s.clientTask ≠ .gone :=
  fun gone => working (piped.drained listening gone).1

theorem piped_header (piped : Piped s) (header : Header) (here : s.chainTask = .idle) :
    Piped { s with headers := s.headers ++ [header], chainTask := .holding header } where
  headerSenders := by simpa [here] using piped.headerSenders
  numberSenders := piped.numberSenders
  drained listening gone := absurd gone (piped.client_working (by simp [here]) listening)
  open_ := piped.open_
  failed := by simp
  flow listening := by
    have flow := piped.flow listening
    simp only [inTransit, here, held_idle, List.append_nil] at flow
    simp only [inTransit, held_holding, List.map_append, ← List.append_assoc] at flow ⊢
    rw [flow]
  inOrder := by
    rw [List.map_append]
    exact piped.inOrder.trans (List.prefix_append _ _)
  closed closed := absurd closed (piped.not_closed (by simp [here]))

/-- The first task ends because the subscription has failed, with nothing in hand, or with
    nobody to take it. -/
theorem piped_chain_gone {failed : Bool} (piped : Piped s) (working : s.chainTask ≠ .gone)
    (lost : s.numberChannel.listening = true → s.chainTask.held = [] ∧ failed = true) :
    Piped { s with
      subscriptionFailed := failed
      chainTask := .gone
      headerChannel := s.headerChannel.dropSender } where
  headerSenders := by
    have senders := piped.headerSenders
    rw [if_neg working] at senders
    simp [Channel.dropSender, senders]
  numberSenders := piped.numberSenders
  drained listening gone := absurd gone (piped.client_working working listening)
  open_ := piped.open_
  failed listening _ := (lost listening).2
  flow listening := by
    have flow := piped.flow listening
    simp only [inTransit, (lost listening).1] at flow
    exact flow
  inOrder := piped.inOrder
  closed closed := absurd closed (piped.not_closed working)

theorem piped_chainSends {header : Header} {channel : Channel Header blockChannelCapacity}
    {ok : Bool} (piped : Piped s) (here : s.chainTask = .holding header)
    (sent : s.headerChannel.Sent header ok channel) :
    Piped (if ok then { s with chainTask := .idle, headerChannel := channel }
      else { s with chainTask := .gone, headerChannel := channel.dropSender }) := by
  have working : s.chainTask ≠ .gone := by simp [here]
  cases sent with
  | accepted listening taken queue senders stays =>
      refine ⟨?_, piped.numberSenders, ?_, fun _ => stays, by simp, ?_, piped.inOrder, ?_⟩
      · simpa [senders, here] using piped.headerSenders
      · exact fun listening gone => absurd gone (piped.client_working working listening)
      · intro listening
        have flow := piped.flow listening
        simp only [inTransit, here, held_holding] at flow
        simpa only [if_true, inTransit, queue, held_idle, held_holding, List.append_nil] using flow
      · exact fun closed => absurd closed (piped.not_closed working)
  | failed deaf =>
      refine piped_chain_gone piped working fun listening => ?_
      have hears := piped.open_ (piped.client_working working listening)
      rw [deaf] at hears
      cases hears

theorem Piped.not_closed_of_listening (piped : Piped s)
    (listening : s.numberChannel.listening = true) : s.subscriptionClosed ≠ true := by
  intro closed
  have deaf := (piped.closed closed).1
  rw [listening] at deaf
  cases deaf

theorem piped_clientReceives {got : Option Header}
    {channel : Channel Header blockChannelCapacity} (piped : Piped s)
    (here : s.clientTask = .idle) (received : s.headerChannel.Received got channel) :
    Piped (s.clientReceived channel got) := by
  cases received with
  | value queue taken senders listening =>
      simp only [clientReceived]
      refine ⟨?_, ?_, by simp, ?_, piped.failed, ?_, piped.inOrder, piped.closed⟩
      · exact senders.trans piped.headerSenders
      · simpa [here] using piped.numberSenders
      · exact fun _ => listening.trans (piped.open_ (by simp [here]))
      · intro listens
        have flow := piped.flow listens
        simp only [inTransit, here, queue, held_idle, List.append_nil, List.cons_append,
          List.map_cons] at flow
        simpa only [inTransit, held_holding, List.append_assoc, List.singleton_append] using flow
  | ended vacant none_ =>
      have over_ : s.chainTask = .gone := by
        by_contra working
        have senders := piped.headerSenders
        rw [if_neg working, none_] at senders
        cases senders
      simp only [clientReceived]
      refine ⟨piped.headerSenders, ?_, fun _ _ => ⟨over_, rfl⟩, by simp, piped.failed, ?_,
        piped.inOrder, piped.closed⟩
      · have senders := piped.numberSenders
        simp only [here, reduceCtorEq, if_false] at senders
        simp [Channel.dropSender, senders]
      · intro listens
        have flow := piped.flow listens
        simp only [inTransit, here, vacant, held_idle] at flow
        exact flow

theorem piped_clientSends {number : ℕ} {ok : Bool} {channel : Channel ℕ blockChannelCapacity}
    (piped : Piped s) (here : s.clientTask = .holding number)
    (sent : s.numberChannel.Sent number ok channel) :
    Piped (if ok then { s with clientTask := .idle, numberChannel := channel }
      else
        { s with
          clientTask := .gone
          headerChannel := s.headerChannel.dropReceiver
          numberChannel := channel.dropSender }) := by
  cases sent with
  | accepted listening taken queue senders stays =>
      refine ⟨piped.headerSenders, ?_, by simp, fun _ => piped.open_ (by simp [here]),
        fun _ => piped.failed listening, ?_, ?_, ?_⟩
      · simpa [here, senders] using piped.numberSenders
      · intro _
        have flow := piped.flow listening
        simp only [inTransit, here, held_holding] at flow
        simpa only [if_true, inTransit, taken, queue, held_idle, List.append_nil] using flow
      · simpa only [if_true, taken] using piped.inOrder
      · exact fun closed => absurd closed (piped.not_closed_of_listening listening)
  | failed deaf =>
      refine ⟨piped.headerSenders, ?_, fun listening => ?_, by simp, piped.failed,
        fun listening => ?_, piped.inOrder, piped.closed⟩
      · have senders := piped.numberSenders
        simp only [here, reduceCtorEq, if_false] at senders
        simp [Channel.dropSender, senders]
      · cases listening.symm.trans deaf
      · cases listening.symm.trans deaf

theorem piped_runReceives {got : Option ℕ} {channel : Channel ℕ blockChannelCapacity}
    (piped : Piped s) (listening : s.numberChannel.listening = true)
    (received : s.numberChannel.Received got channel) :
    Piped (s.runReceived channel got) := by
  have flow := piped.flow listening
  cases received with
  | @value number channel queue taken senders listens =>
      have moved : channel.taken ++ inTransit { s with numberChannel := channel } =
          s.headers.map Header.number := by
        simp only [inTransit, queue, List.cons_append] at flow
        simpa only [inTransit, taken, List.append_assoc, List.singleton_append] using flow
      refine ⟨piped.headerSenders, ?_, ?_, piped.open_, fun _ => piped.failed listening,
        fun _ => moved, ?_, fun closed => ?_⟩
      · exact senders.trans piped.numberSenders
      · exact fun _ gone => piped.drained listening gone
      · exact ⟨_, moved⟩
      · exact absurd closed (piped.not_closed_of_listening listening)
  | ended vacant none_ =>
      have gone : s.clientTask = .gone := by
        by_contra working
        have senders := piped.numberSenders
        rw [if_neg working, none_] at senders
        cases senders
      obtain ⟨over_, drained⟩ := piped.drained listening gone
      have all : s.numberChannel.taken = s.headers.map Header.number := by
        simpa [inTransit, vacant, gone, over_, drained] using flow
      have failed := piped.failed listening over_
      simp only [runReceived]
      exact ⟨piped.headerSenders, piped.numberSenders, by simp [Channel.dropReceiver], piped.open_,
        by simp [Channel.dropReceiver], by simp [Channel.dropReceiver], piped.inOrder,
        fun _ => ⟨rfl, failed, over_, all⟩⟩

theorem piped_runEnds (piped : Piped s) (listening : s.numberChannel.listening = true) :
    Piped { s with numberChannel := s.numberChannel.dropReceiver } :=
  ⟨piped.headerSenders, piped.numberSenders, by simp [Channel.dropReceiver], piped.open_,
    by simp [Channel.dropReceiver], by simp [Channel.dropReceiver], piped.inOrder,
    fun closed => absurd closed (piped.not_closed_of_listening listening)⟩

theorem piped_step (piped : Piped s) (stepped : s.step event = some s') : Piped s' := by
  cases event with
  | header header =>
      simp only [step] at stepped
      split at stepped
      · rename_i here
        cases stepped
        exact piped_header piped header here
      · cases stepped
  | subscriptionFails =>
      simp only [step] at stepped
      split at stepped
      · rename_i here
        cases stepped
        exact piped_chain_gone piped (by simp [here]) fun _ => ⟨by rw [here]; rfl, rfl⟩
      · cases stepped
  | chainSends =>
      simp only [step] at stepped
      split at stepped
      · rename_i header here
        obtain ⟨⟨ok, channel⟩, sent, rfl⟩ := Option.map_eq_some_iff.mp stepped
        exact piped_chainSends piped here (Channel.send_spec sent)
      · cases stepped
  | clientReceives =>
      simp only [step] at stepped
      split at stepped
      · rename_i here
        obtain ⟨⟨got, channel⟩, received, rfl⟩ := Option.map_eq_some_iff.mp stepped
        exact piped_clientReceives piped here (Channel.recv_spec received)
      · cases stepped
  | clientSends =>
      simp only [step] at stepped
      split at stepped
      · rename_i number here
        obtain ⟨⟨ok, channel⟩, sent, rfl⟩ := Option.map_eq_some_iff.mp stepped
        exact piped_clientSends piped here (Channel.send_spec sent)
      · cases stepped
  | runReceives =>
      obtain ⟨listening, receives⟩ := Option.ite_none_right_eq_some.mp stepped
      obtain ⟨⟨got, channel⟩, received, rfl⟩ := Option.map_eq_some_iff.mp receives
      exact piped_runReceives piped listening (Channel.recv_spec received)
  | runEnds =>
      obtain ⟨listening, ends⟩ := Option.ite_none_right_eq_some.mp stepped
      cases ends
      exact piped_runEnds piped listening

theorem Reachable.piped (reached : Reachable s) : Piped s := by
  obtain ⟨events, ran⟩ := reached
  exact runs_invariant (fun _ _ _ held stepped => piped_step held stepped) piped_new ran

theorem length_held_le {α : Type} (task : Forwarder α) : task.held.length ≤ 1 := by
  cases task with
  | idle | holding | gone => simp [held_idle, held_holding, held_gone]

/-- `run` is told of the blocks in the order of the subscription, each once, and is never
    more than sixty-six behind; it sees the end only after all of them, and only when the
    subscription has failed. -/
theorem blocks_in_order (reached : Reachable s) :
    s.numberChannel.taken <+: s.headers.map Header.number ∧
    (s.numberChannel.listening = true →
      s.headers.length ≤ s.numberChannel.taken.length + 66) ∧
    (s.subscriptionClosed = true → s.subscriptionFailed = true ∧
      s.chainTask = .gone ∧ s.numberChannel.taken = s.headers.map Header.number) := by
  have piped := reached.piped
  refine ⟨piped.inOrder, fun listening => ?_, fun closed => (piped.closed closed).2⟩
  have flow := congrArg List.length (piped.flow listening)
  have numbers := s.numberChannel.bounded 32 rfl
  have headers := s.headerChannel.bounded 32 rfl
  have chain := length_held_le s.chainTask
  have client := length_held_le s.clientTask
  simp only [inTransit, List.length_append, List.length_map] at flow
  omega

/-- Two blocks are passed on, the subscription fails, and `run` has seen both when it
    returns. -/
theorem blocks_in_order_to_the_end :
    let events := [.header ⟨7⟩, .chainSends, .clientReceives, .header ⟨9⟩, .clientSends,
      .runReceives, .chainSends, .subscriptionFails, .clientReceives, .clientSends,
      .clientReceives, .runReceives, .runReceives]
    ∃ s, runs step new events = some s ∧ s.subscriptionClosed = true ∧
      s.numberChannel.taken = [7, 9] ∧
      s.numberChannel.taken <+: s.headers.map Header.number ∧
      (s.numberChannel.listening = true →
        s.headers.length ≤ s.numberChannel.taken.length + 66) ∧
      (s.subscriptionClosed = true → s.subscriptionFailed = true ∧
        s.chainTask = .gone ∧ s.numberChannel.taken = s.headers.map Header.number) := by
  intro events
  have shown : (runs step new events).map (fun s => (s.subscriptionClosed, s.numberChannel.taken)) =
      some (true, [7, 9]) := by decide
  obtain ⟨s, ran, now⟩ := Option.map_eq_some_iff.mp shown
  exact ⟨s, ran, congrArg Prod.fst now, congrArg Prod.snd now, blocks_in_order ⟨events, ran⟩⟩

end BlockStream

end Bulkmail.Ethereum
