import Mathlib

/-! # The recent past

A window keeps the latest values of a sequence, and a moving average weighs them by halves.
Both forget: the window what is older than its length, the average more of it with every
value.
-/

namespace Bulkmail.Library

variable {α : Type*}

section Window

/-- A window takes a new value in and lets the oldest go. -/
theorem rtake_concat (n : ℕ) (l : List α) (a : α) :
    (l ++ [a]).rtake n =
      if n < (l.rtake n ++ [a]).length then (l.rtake n ++ [a]).tail else l.rtake n ++ [a] := by
  have size : (l.rtake n).length = min n l.length := by
    rw [List.rtake, List.length_drop]
    omega
  rw [List.length_append, List.length_singleton, size]
  split
  · rename_i spills
    have one : (l ++ [a]).length - n = l.length - n + 1 := by
      rw [List.length_append, List.length_singleton]
      omega
    rw [List.rtake, one, ← List.tail_drop, List.drop_append_of_le_length (Nat.sub_le _ _),
      List.rtake]
  · rename_i room
    have none_ : (l ++ [a]).length - n = l.length - n := by
      rw [List.length_append, List.length_singleton]
      omega
    rw [List.rtake, none_, List.drop_append_of_le_length (Nat.sub_le _ _), List.rtake]

end Window

section Average

/-- The average in which every new value has half of the weight, rounded down. -/
def movingAverage (start : ℕ) (values : List ℕ) : ℕ :=
  values.foldl (fun average value => (average + value) / 2) start

variable {start other k low high : ℕ} {values : List ℕ}

theorem movingAverage_append (start : ℕ) (first second : List ℕ) :
    movingAverage start (first ++ second) = movingAverage (movingAverage start first) second :=
  List.foldl_append

theorem movingAverage_mem (start_in : low ≤ start ∧ start ≤ high)
    (values_in : ∀ value ∈ values, low ≤ value ∧ value ≤ high) :
    low ≤ movingAverage start values ∧ movingAverage start values ≤ high := by
  induction values generalizing start with
  | nil => exact start_in
  | cons value rest ih =>
      obtain ⟨first, others⟩ := List.forall_mem_cons.mp values_in
      apply ih _ others
      dsimp only
      omega

/-- What two averages start with counts for half as much after every value. -/
theorem movingAverage_le (near : start ≤ other + k * 2 ^ values.length) :
    movingAverage start values ≤ movingAverage other values + k := by
  induction values generalizing start other with
  | nil => simpa [movingAverage] using near
  | cons value rest ih =>
      apply ih
      rw [List.length_cons, pow_succ, ← Nat.mul_assoc] at near
      dsimp only
      omega

end Average

end Bulkmail.Library
