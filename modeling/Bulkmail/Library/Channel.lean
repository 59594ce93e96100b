import Mathlib

/-! # Channels

A queue between any number of senders and one receiver.  A send waits while the channel is
full and fails once the receiver is gone; a receive waits while the channel is empty and
somebody may still send.  What the receiver has taken is kept beside the queue, so that
what has been sent is there to be read.
-/

namespace Bulkmail.Library

variable {α : Type*}

/-- A channel of the given capacity, if it has one. -/
structure Channel (α : Type*) (capacity : Option ℕ) where
  taken : List α
  queue : List α
  senders : ℕ
  listening : Bool
  bounded : ∀ n ∈ capacity, queue.length ≤ n

namespace Channel

variable {capacity : Option ℕ}

def new (capacity : Option ℕ) (senders : ℕ) : Channel α capacity where
  taken := []
  queue := []
  senders := senders
  listening := true
  bounded n _ := Nat.zero_le n

variable (c : Channel α capacity)

/-- Everything that has gone in, as long as somebody listens. -/
def sent : List α := c.taken ++ c.queue

/-- Whether the value went in; no result at all while the channel is full. -/
def send (a : α) : Option (Bool × Channel α capacity) :=
  if c.listening then
    if room : ∀ n ∈ capacity, c.queue.length < n then
      some (true, { c with
        queue := c.queue ++ [a]
        bounded := fun n member => by
          rw [List.length_append, List.length_singleton]
          exact room n member })
    else none
  else some (false, c)

/-- The next value, or `none` at the end; no result at all while there may be more. -/
def recv : Option (Option α × Channel α capacity) :=
  match next : c.queue with
  | a :: rest =>
      some (some a, { c with
        taken := c.taken ++ [a]
        queue := rest
        bounded := fun n member => by
          have bounded := c.bounded n member
          rw [next, List.length_cons] at bounded
          omega })
  | [] => if c.senders = 0 then some (none, c) else none

def dropSender : Channel α capacity := { c with senders := c.senders - 1 }

/-- What is still queued is gone with the receiver. -/
def dropReceiver : Channel α capacity :=
  { c with listening := false, queue := [], bounded := fun n _ => Nat.zero_le n }

variable {c} {c' : Channel α capacity} {a : α}

/-- What a send can come to. -/
inductive Sent (c : Channel α capacity) (a : α) : Bool → Channel α capacity → Prop where
  | accepted {after : Channel α capacity} : c.listening = true → after.taken = c.taken →
      after.queue = c.queue ++ [a] → after.senders = c.senders → after.listening = true →
      Sent c a true after
  | failed : c.listening = false → Sent c a false c

theorem send_spec {ok : Bool} (done : c.send a = some (ok, c')) : Sent c a ok c' := by
  unfold send at done
  split at done
  · rename_i listening
    split at done
    · cases done
      exact .accepted listening rfl rfl rfl listening
    · cases done
  · rename_i deaf
    cases done
    exact .failed (by simpa using deaf)

/-- What a receive can come to. -/
inductive Received (c : Channel α capacity) : Option α → Channel α capacity → Prop where
  | value {next : α} {after : Channel α capacity} : c.queue = next :: after.queue →
      after.taken = c.taken ++ [next] → after.senders = c.senders →
      after.listening = c.listening → Received c (some next) after
  | ended : c.queue = [] → c.senders = 0 → Received c none c

theorem recv_spec {got : Option α} (done : c.recv = some (got, c')) : Received c got c' := by
  unfold recv at done
  split at done
  · rename_i a rest next
    cases done
    exact .value next rfl rfl rfl
  · rename_i vacant
    obtain ⟨gone, result⟩ := Option.ite_none_right_eq_some.mp done
    cases result
    exact .ended vacant gone

theorem exists_recv_of_queue {rest : List α} (queued : c.queue = a :: rest) :
    ∃ after : Channel α capacity, c.recv = some (some a, after) ∧ after.queue = rest := by
  unfold recv
  split
  · rename_i first later next
    obtain ⟨rfl, rfl⟩ := List.cons.inj (next.symm.trans queued)
    exact ⟨_, rfl, rfl⟩
  · rename_i vacant
    cases vacant.symm.trans queued

theorem recv_of_vacant (vacant : c.queue = []) (gone : c.senders = 0) :
    c.recv = some (none, c) := by
  unfold recv
  split
  · rename_i first later next
    cases vacant.symm.trans next
  · exact if_pos gone

end Channel

/-! ## What several senders put in -/

variable {ι : Type*} [DecidableEq ι]

/-- The whole is what the senders have sent, each in its own order. -/
def Merged (parts : ι → List α) (whole : List α) : Prop :=
  ∃ tagged : List (ι × α), tagged.map Prod.snd = whole ∧
    ∀ i, (tagged.filter (·.1 = i)).map Prod.snd = parts i

variable {parts parts' : ι → List α} {whole : List α}

theorem merged_nil (nothing : ∀ i, parts i = []) : Merged parts [] :=
  ⟨[], rfl, fun i => (nothing i).symm⟩

theorem Merged.snoc (merged : Merged parts whole) {i : ι} {a : α}
    (mine : parts' i = parts i ++ [a]) (others : ∀ j, j ≠ i → parts' j = parts j) :
    Merged parts' (whole ++ [a]) := by
  obtain ⟨tagged, whole_eq, parts_eq⟩ := merged
  refine ⟨tagged ++ [(i, a)], by simp [whole_eq], fun j => ?_⟩
  rw [List.filter_append, List.map_append, parts_eq]
  by_cases same : j = i
  · subst same
    simp [mine]
  · simp [others j same, Ne.symm same]

end Bulkmail.Library
