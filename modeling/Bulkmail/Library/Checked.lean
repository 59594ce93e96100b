import Mathlib

/-! # Checked machine arithmetic

Fixed-width unsigned integers are naturals.  An operation that would leave the
range of its type has no result: it is the point where an overflow-checked build
panics.  So is a vector that asks for a larger buffer than there can be; a smaller
one is taken to be granted.
-/

namespace Bulkmail.Library

/-- How many values the unsigned type has. -/
def u32Size : ℕ := 2 ^ 32

@[inherit_doc u32Size]
def u64Size : ℕ := 2 ^ 64

@[inherit_doc u32Size]
def u128Size : ℕ := 2 ^ 128

/-- Literals of 256-bit words. -/
instance wordNeZero : NeZero (2 ^ 256) := ⟨by decide⟩

/-- `a + b` in an unsigned type with `size` values. -/
def checkedAdd (size a b : ℕ) : Option ℕ :=
  if a + b < size then some (a + b) else none

/-- `a * b` in an unsigned type with `size` values. -/
def checkedMul (size a b : ℕ) : Option ℕ :=
  if a * b < size then some (a * b) else none

/-- `a + b`, stuck at the type's largest value. -/
def saturatingAdd (size a b : ℕ) : ℕ := min (a + b) (size - 1)

/-- `a - b` in any unsigned type. -/
def checkedSub (a b : ℕ) : Option ℕ :=
  if b ≤ a then some (a - b) else none

theorem checkedAdd_eq_some_iff {size a b c : ℕ} :
    checkedAdd size a b = some c ↔ a + b < size ∧ a + b = c := by
  unfold checkedAdd
  split <;> simp [*]

theorem checkedAdd_of_lt {size a b : ℕ} (small : a + b < size) :
    checkedAdd size a b = some (a + b) := if_pos small

/-- In whatever order sums are taken, they overflow together. -/
theorem checkedAdd_right_comm (size a b c : ℕ) :
    (checkedAdd size a b).bind (checkedAdd size · c) =
      (checkedAdd size a c).bind (checkedAdd size · b) := by
  have nested : ∀ b c, (checkedAdd size a b).bind (checkedAdd size · c) =
      if a + b + c < size then some (a + b + c) else none := by
    intro b c
    unfold checkedAdd
    split
    · rfl
    · rename_i large
      rw [Option.bind_none, if_neg (by omega)]
  rw [nested b c, nested c b, Nat.add_right_comm]

theorem checkedMul_of_lt {size a b : ℕ} (small : a * b < size) :
    checkedMul size a b = some (a * b) := if_pos small

theorem checkedSub_eq_some_iff {a b c : ℕ} :
    checkedSub a b = some c ↔ b ≤ a ∧ a - b = c := by
  unfold checkedSub
  split <;> simp [*]

theorem checkedSub_of_le {a b : ℕ} (le : b ≤ a) : checkedSub a b = some (a - b) := if_pos le

section Vectors

variable {α : Type*} {xs : List α} {i : ℕ}

/-- `xs[i] = x` on a vector. -/
def checkedSet (xs : List α) (i : ℕ) (x : α) : Option (List α) :=
  if i < xs.length then some (xs.set i x) else none

/-- `xs.drain(0..count)` on a vector. -/
def checkedDrain (xs : List α) (count : ℕ) : Option (List α) :=
  if count ≤ xs.length then some (xs.drop count) else none

/-- `isize::MAX` on a 64-bit target, the most bytes a vector's buffer can have. -/
def isizeMax : ℕ := 2 ^ 63 - 1

/-- `vec![x; count]` with elements of `size` bytes: "capacity overflow" if they are too many. -/
def checkedReplicate (size count : ℕ) (x : α) : Option (List α) :=
  if size * count ≤ isizeMax then some (List.replicate count x) else none

/-- A vector that outgrows its buffer asks for one up to twice as long as it needs. -/
def GrowsTo (size length : ℕ) : Prop := size * (2 * length) ≤ isizeMax

instance {size length : ℕ} : Decidable (GrowsTo size length) :=
  inferInstanceAs (Decidable (size * (2 * length) ≤ isizeMax))

/-- `xs.append(ys)` on vectors of elements of `size` bytes. -/
def checkedAppend (size : ℕ) (xs ys : List α) : Option (List α) :=
  if GrowsTo size (xs.length + ys.length) then some (xs ++ ys) else none

/-- `xs.resize(length, x)` on a vector that is not longer. -/
def checkedResize (size : ℕ) (xs : List α) (length : ℕ) (x : α) : Option (List α) :=
  if GrowsTo size length then some (xs.rightpad length x) else none

theorem GrowsTo.mono {size length shorter : ℕ} (grows : GrowsTo size length)
    (le : shorter ≤ length) : GrowsTo size shorter :=
  (Nat.mul_le_mul_left size (Nat.mul_le_mul_left 2 le)).trans grows

theorem checkedReplicate_of_growsTo {size count : ℕ} (grows : GrowsTo size count) (x : α) :
    checkedReplicate size count x = some (List.replicate count x) :=
  if_pos ((Nat.mul_le_mul_left size (Nat.le_mul_of_pos_left count two_pos)).trans grows)

theorem checkedAppend_of_growsTo {size : ℕ} {ys : List α}
    (grows : GrowsTo size (xs.length + ys.length)) :
    checkedAppend size xs ys = some (xs ++ ys) := if_pos grows

theorem checkedResize_of_growsTo {size length : ℕ} (grows : GrowsTo size length) (x : α) :
    checkedResize size xs length x = some (xs.rightpad length x) := if_pos grows

theorem checkedSet_of_lt (inside : i < xs.length) (x : α) :
    checkedSet xs i x = some (xs.set i x) := if_pos inside

theorem checkedDrain_of_le (le : i ≤ xs.length) : checkedDrain xs i = some (xs.drop i) := if_pos le

end Vectors

end Bulkmail.Library
