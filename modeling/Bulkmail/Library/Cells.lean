import Bulkmail.Library.Collections

/-! # Windows of optional cells

A finite window onto the naturals: `cells[i]` holds whatever sits at position
`base + i`.  Windows are moved in both directions, padded, overwritten and cut,
and `cellAt` is the view under which every one of these operations is either a
point update or no change at all.  A window with nothing empty at either end is
determined by that view.  The second half counts occupied cells and describes the
contiguous block of cells, starting at the base, that all satisfy a predicate.
-/

namespace Bulkmail.Library

variable {α κ : Type*}

/-- What the window shows at an absolute position. -/
def cellAt (base : ℕ) (cells : List (Option α)) (n : ℕ) : Option α :=
  if base ≤ n then cells[n - base]?.join else none

section View

variable {base n i : ℕ} {cells : List (Option α)} {x : α}

theorem cellAt_eq_some_iff :
    cellAt base cells n = some x ↔ base ≤ n ∧ cells[n - base]? = some (some x) := by
  unfold cellAt
  split
  · rename_i inside
    cases found : cells[n - base]? <;> simp [inside]
  · rename_i below
    simp [below]

theorem cellAt_below (below : n < base) : cellAt base cells n = none := by
  simp [cellAt, Nat.not_le.mpr below]

@[simp] theorem cellAt_nil : cellAt base ([] : List (Option α)) n = none := by
  simp [cellAt]

theorem cellAt_base_add : cellAt base cells (base + i) = cells[i]?.join := by
  simp [cellAt]

/-- Emptying a cell changes the view at that position only. -/
theorem cellAt_set_none (base i n : ℕ) (cells : List (Option α)) :
    cellAt base (cells.set i none) n = if n = base + i then none else cellAt base cells n := by
  unfold cellAt
  by_cases inside : base ≤ n
  · rw [if_pos inside, if_pos inside, List.getElem?_set]
    by_cases here : i = n - base
    · have same : n = base + i := by omega
      rw [if_pos here, if_pos same]
      split <;> rfl
    · have other : n ≠ base + i := by omega
      rw [if_neg here, if_neg other]
  · rw [if_neg inside, if_neg inside, ite_self]

/-- Padding up to a cell and writing it changes the view at that position only. -/
theorem cellAt_rightpad_set (base i n : ℕ) (cells : List (Option α)) (x : α) :
    cellAt base ((cells.rightpad (i + 1) none).set i (some x)) n =
      if n = base + i then some x else cellAt base cells n := by
  unfold cellAt
  by_cases inside : base ≤ n
  · rw [if_pos inside, if_pos inside, List.getElem?_set]
    by_cases here : i = n - base
    · have same : n = base + i := by omega
      have padded : i < (cells.rightpad (i + 1) none).length := by
        rw [List.length_rightpad]
        exact lt_max_of_lt_left (Nat.lt_succ_self i)
      rw [if_pos here, if_pos same, if_pos padded, Option.join_some]
    · have other : n ≠ base + i := by omega
      rw [if_neg here, if_neg other, List.rightpad, List.getElem?_append]
      split
      · rfl
      · rename_i beyond
        rw [List.getElem?_eq_none (Nat.not_lt.mp beyond), List.getElem?_replicate]
        split <;> rfl
  · have other : n ≠ base + i := by omega
    rw [if_neg inside, if_neg inside, if_neg other]

/-- Moving the base down over empty cells does not change the view. -/
theorem cellAt_replicate_append (n : ℕ) (cells : List (Option α)) {lower : ℕ} (le : lower ≤ base) :
    cellAt lower (List.replicate (base - lower) none ++ cells) n = cellAt base cells n := by
  unfold cellAt
  by_cases inside : base ≤ n
  · have shifted : n - lower - (base - lower) = n - base := by omega
    rw [if_pos (le.trans inside), if_pos inside, List.getElem?_append_right
      (by rw [List.length_replicate]; omega), List.length_replicate, shifted]
  · rw [if_neg inside]
    split
    · rw [List.getElem?_append_left (by rw [List.length_replicate]; omega),
        List.getElem?_replicate]
      split <;> rfl
    · rfl

/-- Moving the base up forgets what lies below it. -/
theorem cellAt_drop {upper : ℕ} (le : base ≤ upper) :
    cellAt upper (cells.drop (upper - base)) n =
      if n < upper then none else cellAt base cells n := by
  unfold cellAt
  by_cases below : n < upper
  · rw [if_neg (Nat.not_le.mpr below), if_pos below]
  · have shifted : upper - base + (n - upper) = n - base := by omega
    rw [if_pos (Nat.not_lt.mp below), if_neg below, if_pos (le.trans (Nat.not_lt.mp below)),
      List.getElem?_drop, shifted]

end View

section Tight

variable {base base' n : ℕ} {cells cells' : List (Option α)}

theorem inside_of_isSome (shown : (cellAt base cells n).isSome) :
    base ≤ n ∧ n < base + cells.length := by
  obtain ⟨x, found⟩ := Option.isSome_iff_exists.mp shown
  obtain ⟨above, here⟩ := cellAt_eq_some_iff.mp found
  obtain ⟨inside, -⟩ := List.getElem?_eq_some_iff.mp here
  omega

/-- The first and the last cell of the window hold something. -/
structure Tight (base : ℕ) (cells : List (Option α)) : Prop where
  first : (cellAt base cells base).isSome
  last : ∃ n, base + cells.length = n + 1 ∧ (cellAt base cells n).isSome

/-- A window lies inside every other one that shows the same. -/
theorem Tight.within (tight : Tight base cells)
    (same : ∀ n, cellAt base cells n = cellAt base' cells' n) :
    base' ≤ base ∧ base + cells.length ≤ base' + cells'.length := by
  obtain ⟨n, ends, last⟩ := tight.last
  have first := tight.first
  rw [same] at first last
  have low := inside_of_isSome first
  have high := inside_of_isSome last
  omega

/-- A tight window is determined by what it shows. -/
theorem Tight.eq (tight : Tight base cells) (tight' : Tight base' cells')
    (same : ∀ n, cellAt base cells n = cellAt base' cells' n) : base = base' ∧ cells = cells' := by
  have inner := tight.within same
  have outer := tight'.within fun n => (same n).symm
  obtain rfl : base = base' := by omega
  have length : cells.length = cells'.length := by omega
  refine ⟨rfl, List.ext_getElem length fun i inside inside' => ?_⟩
  have shown := same (base + i)
  rwa [cellAt_base_add, cellAt_base_add, List.getElem?_eq_getElem inside,
    List.getElem?_eq_getElem inside', Option.join_some, Option.join_some] at shown

end Tight

section Occupied

/-- How many cells of the window hold something. -/
def occupied (cells : List (Option α)) : ℕ := cells.countP Option.isSome

theorem occupied_append (front back : List (Option α)) :
    occupied (front ++ back) = occupied front + occupied back :=
  List.countP_append

theorem occupied_replicate_none (k : ℕ) : occupied (List.replicate k (none : Option α)) = 0 := by
  simp [occupied, List.countP_replicate]

theorem occupied_drop_le (k : ℕ) (cells : List (Option α)) :
    occupied (cells.drop k) ≤ occupied cells :=
  (List.drop_sublist k cells).countP_le

/-- Overwriting a cell trades its old content for the new one in the count. -/
theorem occupied_set {cells : List (Option α)} {i : ℕ} (inside : i < cells.length)
    (cell : Option α) :
    occupied (cells.set i cell) + (if cells[i].isSome then 1 else 0) =
      occupied cells + if cell.isSome then 1 else 0 := by
  have counted := countP_set_add Option.isSome (List.getElem?_eq_getElem inside) cell
  simpa only [occupied, Bool.toNat, Bool.cond_eq_ite] using counted

theorem occupied_rightpad (cells : List (Option α)) (k : ℕ) :
    occupied (cells.rightpad k none) = occupied cells := by
  rw [List.rightpad, occupied_append, occupied_replicate_none, Nat.add_zero]

theorem length_reduceOption_eq_occupied (cells : List (Option α)) :
    cells.reduceOption.length = occupied cells := by
  rw [List.reduceOption_length_eq, occupied, List.countP_eq_length_filter]

/-- Contents that know their own position never repeat it. -/
theorem nodup_positions {position : α → ℕ} {cells : List (Option α)} {base : ℕ}
    (placed : ∀ i x, cells[i]? = some (some x) → position x = base + i) :
    (cells.reduceOption.map position).Nodup := by
  induction cells generalizing base with
  | nil => simp
  | cons head rest ih =>
      have tail : ∀ i x, rest[i]? = some (some x) → position x = base + 1 + i := by
        intro i x found
        have here := placed (i + 1) x (by simpa using found)
        omega
      cases head with
      | none => simpa using ih tail
      | some x =>
          have first : position x = base := placed 0 x rfl
          rw [List.reduceOption_cons_of_some, List.map_cons, List.nodup_cons]
          refine ⟨?_, ih tail⟩
          rintro repeated
          obtain ⟨y, member, same⟩ := List.mem_map.mp repeated
          obtain ⟨i, found⟩ := List.mem_iff_getElem?.mp (List.reduceOption_mem_iff.mp member)
          have later := tail i y found
          omega

end Occupied

section Block

variable {ok : α → Prop} [DecidablePred ok]

/-- Length of the block of cells from the base on that are all occupied by
    something satisfying the predicate. -/
def readyRun (ok : α → Prop) [DecidablePred ok] : List (Option α) → ℕ
  | some x :: rest => if ok x then readyRun ok rest + 1 else 0
  | _ => 0

theorem lt_readyRun_iff {cells : List (Option α)} {i : ℕ} :
    i < readyRun ok cells ↔ ∀ j ≤ i, ∃ x, cells[j]? = some (some x) ∧ ok x := by
  induction cells generalizing i with
  | nil =>
      simp only [readyRun, Nat.not_lt_zero, false_iff]
      intro all
      simpa using all 0 (Nat.zero_le i)
  | cons head rest ih =>
      cases head with
      | none =>
          simp only [readyRun, Nat.not_lt_zero, false_iff]
          intro all
          simpa using all 0 (Nat.zero_le i)
      | some x =>
          simp only [readyRun]
          split
          · rename_i good
            cases i with
            | zero =>
                simp only [Nat.zero_lt_succ, Nat.le_zero_eq, forall_eq, true_iff]
                exact ⟨x, rfl, good⟩
            | succ i =>
                rw [Nat.add_lt_add_iff_right, ih]
                constructor
                · intro all j le
                  cases j with
                  | zero => exact ⟨x, rfl, good⟩
                  | succ j => simpa using all j (Nat.le_of_succ_le_succ le)
                · intro all j le
                  simpa using all (j + 1) (Nat.succ_le_succ le)
          · rename_i bad
            simp only [Nat.not_lt_zero, false_iff]
            intro all
            obtain ⟨y, found, good⟩ := all 0 (Nat.zero_le i)
            simp only [List.getElem?_cons_zero, Option.some.injEq] at found
            exact bad (found ▸ good)

/-- A position is linked when every position from the base up to it shows
    something satisfying the predicate. -/
def Linked (ok : α → Prop) (base : ℕ) (view : ℕ → Option α) (n : ℕ) : Prop :=
  base ≤ n ∧ ∀ m, base ≤ m → m ≤ n → ∃ x, view m = some x ∧ ok x

theorem linked_iff_lt_readyRun {base n : ℕ} {cells : List (Option α)} :
    Linked ok base (cellAt base cells) n ↔ base ≤ n ∧ n - base < readyRun ok cells := by
  simp only [Linked, lt_readyRun_iff, cellAt_eq_some_iff]
  refine and_congr_right fun inside => ⟨fun all j le => ?_, fun all m above le => ?_⟩
  · obtain ⟨x, ⟨-, found⟩, good⟩ := all (base + j) (Nat.le_add_right base j) (by omega)
    exact ⟨x, by simpa using found, good⟩
  · obtain ⟨x, found, good⟩ := all (m - base) (by omega)
    exact ⟨x, ⟨above, found⟩, good⟩

end Block

end Bulkmail.Library
