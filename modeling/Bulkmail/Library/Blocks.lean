import Bulkmail.Library.Cells

/-! # Initial blocks under one change

The listing of a table is its initial block of good cells, each position paired with
its cell's rank.  When one cell changes, an index can follow by changing that cell's
own entry, or by listing the table again.  The results here say exactly when the two
give the same entries.
-/

namespace Bulkmail.Library

variable {α ρ : Type*} {ok : α → Prop} {rank : α → ρ} {view : ℕ → Option α}
variable {base k n : ℕ} {x old : α}

def Shows (ok : α → Prop) (view : ℕ → Option α) (m : ℕ) : Prop := ∃ x, view m = some x ∧ ok x

instance [DecidablePred ok] : Decidable (Shows ok view n) :=
  inferInstanceAs (Decidable (∃ x ∈ view n, ok x))

def listing (ok : α → Prop) (rank : α → ρ) (base : ℕ) (view : ℕ → Option α) : Set (ℕ × ρ) :=
  {entry | Linked ok base view entry.1 ∧ ∃ x, view entry.1 = some x ∧ rank x = entry.2}

theorem listing_of_shows_none (none_ : ∀ m, view m = none) : listing ok rank base view = ∅ := by
  ext entry
  simp [listing, none_]

theorem shows_update_self : Shows ok (Function.update view k (some x)) k ↔ ok x := by
  simp [Shows]

theorem shows_update_of_ne {m : ℕ} (cell : Option α) (other : m ≠ k) :
    Shows ok (Function.update view k cell) m ↔ Shows ok view m := by
  simp [Shows, other]

theorem linked_iff_shows :
    Linked ok base view n ↔ base ≤ n ∧ ∀ m, base ≤ m → m ≤ n → Shows ok view m := Iff.rfl

/-- The last cell of a block stands on the ones in front of it. -/
theorem linked_of_front (above : base ≤ n) (front : ∀ m, base ≤ m → m < n → Shows ok view m)
    (last : Shows ok view n) : Linked ok base view n := by
  refine ⟨above, fun m low le => ?_⟩
  rcases Nat.lt_or_eq_of_le le with before | rfl
  · exact front m low before
  · exact last

/-! ## Emptying a cell -/

theorem linked_vacate_iff (inside : base ≤ k) :
    Linked ok base (Function.update view k none) n ↔ Linked ok base view n ∧ n < k := by
  constructor
  · intro linked
    have before : n < k := by
      by_contra late
      obtain ⟨x, found, -⟩ := linked.2 k inside (Nat.not_lt.mp late)
      simp at found
    refine ⟨⟨linked.1, fun m above le => ?_⟩, before⟩
    exact (shows_update_of_ne none (by omega)).mp (linked.2 m above le)
  · intro linked
    refine ⟨linked.1.1, fun m above le => ?_⟩
    exact (shows_update_of_ne none (by omega)).mpr (linked.1.2 m above le)

/-- Emptying a listed cell costs only its own entry when the block ends there. -/
theorem listing_vacate_iff (rank : α → ρ) (linked : Linked ok base view k)
    (held : view k = some old) :
    listing ok rank base (Function.update view k none) =
      listing ok rank base view \ {(k, rank old)} ↔ ¬ Shows ok view (k + 1) := by
  constructor
  · intro same next
    obtain ⟨y, found, good⟩ := next
    have listed : (k + 1, rank y) ∈ listing ok rank base view \ {(k, rank old)} := by
      have joined : Linked ok base view (k + 1) :=
        linked_of_front (Nat.le_succ_of_le linked.1)
          (fun m above before => linked.2 m above (Nat.le_of_lt_succ before)) ⟨y, found, good⟩
      exact ⟨⟨joined, y, found, rfl⟩, by simp⟩
    rw [← same] at listed
    have before := ((linked_vacate_iff linked.1).mp listed.1).2
    simp only at before
    omega
  · intro ends
    ext ⟨n, r⟩
    simp only [listing, Set.mem_sdiff, Set.mem_ofPred_eq, Set.mem_singleton_iff, Prod.mk.injEq,
      linked_vacate_iff linked.1]
    constructor
    · intro listed
      have other : n ≠ k := by omega
      simp only [Function.update_of_ne other] at listed
      exact ⟨⟨listed.1.1, listed.2⟩, fun same => other same.1⟩
    · intro listed
      have before : n < k := by
        rcases Nat.lt_trichotomy n k with before | rfl | after
        · exact before
        · obtain ⟨⟨-, y, found, ranked⟩, differ⟩ := listed
          rw [held, Option.some.injEq] at found
          exact absurd ⟨rfl, found ▸ ranked.symm⟩ differ
        · have above := linked.1
          exact absurd (listed.1.1.2 (k + 1) (by omega) after) ends
      simp only [Function.update_of_ne (Nat.ne_of_lt before)]
      exact ⟨⟨listed.1.1, before⟩, listed.1.2⟩

/-! ## Filling a cell -/

/-- The new cell joins the block, it shuts nothing out of it, and it lets nothing in. -/
def Extends (ok : α → Prop) (rank : α → ρ) (base : ℕ) (view : ℕ → Option α) (k : ℕ) (x : α) :
    Prop :=
  ok x ∧ (k < base → k + 1 = base ∨ ¬ Shows ok view base) ∧
    (base ≤ k → (∀ m, base ≤ m → m < k → Shows ok view m) ∧
      ((∃ old, view k = some old ∧ ok old ∧ rank old = rank x) ∨
        (¬ Shows ok view k ∧ ¬ Shows ok view (k + 1))))

instance [DecidablePred ok] [DecidableEq ρ] : Decidable (Extends ok rank base view k x) :=
  have : Decidable (∃ old, view k = some old ∧ ok old ∧ rank old = rank x) :=
    inferInstanceAs (Decidable (∃ old ∈ view k, ok old ∧ rank old = rank x))
  inferInstanceAs (Decidable (_ ∧ _ ∧ _))

theorem mem_listing_fill_self {start : ℕ} {r : ρ} :
    (k, r) ∈ listing ok rank start (Function.update view k (some x)) ↔
      (start ≤ k ∧ ok x ∧ ∀ m, start ≤ m → m < k → Shows ok view m) ∧ rank x = r := by
  simp only [listing, Set.mem_ofPred_eq, Function.update_self, Option.some.injEq, exists_eq_left',
    and_congr_left_iff]
  intro _
  constructor
  · intro linked
    refine ⟨linked.1, shows_update_self.mp (linked.2 k linked.1 le_rfl), fun m above before => ?_⟩
    exact (shows_update_of_ne _ before.ne).mp (linked.2 m above before.le)
  · intro joined
    refine linked_of_front joined.1 (fun m above before => ?_) (shows_update_self.mpr joined.2.1)
    exact (shows_update_of_ne _ before.ne).mpr (joined.2.2 m above before)

theorem mem_listing_fill_of_ne {start : ℕ} {r : ρ} (other : n ≠ k) :
    (n, r) ∈ listing ok rank start (Function.update view k (some x)) ↔
      (start ≤ n ∧ ∀ m, start ≤ m → m ≤ n → m ≠ k → Shows ok view m) ∧
        (start ≤ k → k ≤ n → ok x) ∧ ∃ y, view n = some y ∧ rank y = r := by
  simp only [listing, Set.mem_ofPred_eq, Function.update_of_ne other, linked_iff_shows]
  constructor
  · intro listed
    refine ⟨⟨listed.1.1, fun m above le differ => ?_⟩, fun above le => ?_, listed.2⟩
    · exact (shows_update_of_ne _ differ).mp (listed.1.2 m above le)
    · exact shows_update_self.mp (listed.1.2 k above le)
  · intro listed
    refine ⟨⟨listed.1.1, fun m above le => ?_⟩, listed.2.2⟩
    by_cases same : m = k
    · subst same
      exact shows_update_self.mpr (listed.2.1 above le)
    · exact (shows_update_of_ne _ same).mpr (listed.1.2 m above le same)

/-- Below the base the new cell is listed alone, and the old block is kept only next to it. -/
theorem listing_fill_below_iff (empty : ∀ m < base, view m = none) (below : k < base) :
    listing ok rank k (Function.update view k (some x)) =
      insert (k, rank x) (listing ok rank base view) ↔
    ok x ∧ (k + 1 = base ∨ ¬ Shows ok view base) := by
  have hidden : ∀ m < base, ¬ Shows ok view m := by
    intro m before shown
    obtain ⟨y, found, -⟩ := shown
    rw [empty m before] at found
    cases found
  constructor
  · intro same
    have joined := mem_listing_fill_self.mp (same ▸ Set.mem_insert _ _)
    refine ⟨joined.1.2.1, or_iff_not_imp_left.mpr fun apart shown => ?_⟩
    obtain ⟨y, found, good⟩ := shown
    have listed : (base, rank y) ∈ listing ok rank base view := by
      refine ⟨⟨le_rfl, fun m above le => ?_⟩, y, found, rfl⟩
      obtain rfl := Nat.le_antisymm le above
      exact ⟨y, found, good⟩
    have kept := (mem_listing_fill_of_ne below.ne').mp (same ▸ Set.mem_insert_of_mem _ listed)
    exact hidden (k + 1) (by omega) (kept.1.2 (k + 1) (by omega) (by omega) (by omega))
  · intro cond
    ext ⟨n, r⟩
    rw [Set.mem_insert_iff, Prod.mk.injEq]
    by_cases here : n = k
    · subst here
      rw [mem_listing_fill_self]
      constructor
      · intro listed
        exact .inl ⟨rfl, listed.2.symm⟩
      · intro listed
        rcases listed with same | old
        · exact ⟨⟨le_rfl, cond.1, fun m above before => by omega⟩, same.2.symm⟩
        · exact absurd old.1.1 (Nat.not_le.mpr below)
    · rw [mem_listing_fill_of_ne here]
      simp only [here, false_and, false_or]
      constructor
      · intro listed
        have after : k < n := by omega
        have next := listed.1.2 (k + 1) (by omega) after (by omega)
        have adjacent : k + 1 = base := by
          by_contra apart
          exact hidden (k + 1) (by omega) next
        refine ⟨⟨by simp only; omega, fun m above le => ?_⟩, listed.2.2⟩
        exact listed.1.2 m (by omega) le (by omega)
      · intro listed
        have above := listed.1.1
        have adjacent : k + 1 = base :=
          cond.2.resolve_right fun ends => ends (listed.1.2 base le_rfl above)
        refine ⟨⟨by omega, fun m low le differ => ?_⟩, fun _ _ => cond.1, listed.2⟩
        exact listed.1.2 m (by omega) le

/-- What a fill inside the block owes, read off the new cell's entry and its neighbours'. -/
theorem joins_of_listing_fill (inside : base ≤ k)
    (same : listing ok rank base (Function.update view k (some x)) =
      insert (k, rank x) (listing ok rank base view)) :
    ok x ∧ (∀ m, base ≤ m → m < k → Shows ok view m) ∧
      ((∃ old, view k = some old ∧ ok old ∧ rank old = rank x) ∨
        (¬ Shows ok view k ∧ ¬ Shows ok view (k + 1))) := by
  obtain ⟨⟨-, good, front⟩, -⟩ := mem_listing_fill_self.mp (same ▸ Set.mem_insert _ _)
  refine ⟨good, front, ?_⟩
  by_cases shown : Shows ok view k
  · obtain ⟨old, found, fine⟩ := shown
    have listed : (k, rank old) ∈ listing ok rank base view :=
      ⟨linked_of_front inside front ⟨old, found, fine⟩, old, found, rfl⟩
    have kept := mem_listing_fill_self.mp (same ▸ Set.mem_insert_of_mem _ listed)
    exact .inl ⟨old, found, fine, kept.2.symm⟩
  · refine .inr ⟨shown, fun next => ?_⟩
    obtain ⟨y, found, fine⟩ := next
    have listed : (k + 1, rank y) ∈ listing ok rank base (Function.update view k (some x)) := by
      refine (mem_listing_fill_of_ne (by omega)).mpr
        ⟨⟨by omega, fun m above le differ => ?_⟩, fun _ _ => good, y, found, rfl⟩
      rcases Nat.lt_or_eq_of_le le with before | rfl
      · exact front m above (by omega)
      · exact ⟨y, found, fine⟩
    rw [same, Set.mem_insert_iff, Prod.mk.injEq] at listed
    rcases listed with equal | old
    · omega
    · exact shown (old.1.2 k inside (by simp))

theorem listing_fill_of_joins (inside : base ≤ k) (good : ok x)
    (front : ∀ m, base ≤ m → m < k → Shows ok view m)
    (rest : (∃ old, view k = some old ∧ ok old ∧ rank old = rank x) ∨
      (¬ Shows ok view k ∧ ¬ Shows ok view (k + 1))) :
    listing ok rank base (Function.update view k (some x)) =
      insert (k, rank x) (listing ok rank base view) := by
  ext ⟨n, r⟩
  rw [Set.mem_insert_iff, Prod.mk.injEq]
  by_cases here : n = k
  · subst here
    rw [mem_listing_fill_self]
    constructor
    · intro listed
      exact .inl ⟨rfl, listed.2.symm⟩
    · intro listed
      refine ⟨⟨inside, good, front⟩, ?_⟩
      rcases listed with same | listed
      · exact same.2.symm
      · obtain ⟨linked, y, found, rfl⟩ := listed
        rcases rest with replaced | hidden
        · obtain ⟨old, held, -, ranked⟩ := replaced
          rw [held, Option.some.injEq] at found
          rw [← found, ranked]
        · exact absurd (linked.2 n inside le_rfl) hidden.1
  · rw [mem_listing_fill_of_ne here]
    simp only [here, false_and, false_or]
    constructor
    · intro listed
      refine ⟨⟨listed.1.1, fun m above le => ?_⟩, listed.2.2⟩
      by_cases same : m = k
      · subst same
        rcases rest with replaced | hidden
        · obtain ⟨old, held, fine, -⟩ := replaced
          exact ⟨old, held, fine⟩
        · have after : m < n := Nat.lt_of_le_of_ne le (Ne.symm here)
          exact absurd (listed.1.2 (m + 1) (by omega) after (by omega)) hidden.2
      · exact listed.1.2 m above le same
    · intro listed
      exact ⟨⟨listed.1.1, fun m above le _ => listed.1.2 m above le⟩, fun _ _ => good, listed.2⟩

theorem listing_fill_inside_iff (inside : base ≤ k) :
    listing ok rank base (Function.update view k (some x)) =
      insert (k, rank x) (listing ok rank base view) ↔
    ok x ∧ (∀ m, base ≤ m → m < k → Shows ok view m) ∧
      ((∃ old, view k = some old ∧ ok old ∧ rank old = rank x) ∨
        (¬ Shows ok view k ∧ ¬ Shows ok view (k + 1))) :=
  ⟨joins_of_listing_fill inside, fun joins =>
    listing_fill_of_joins inside joins.1 joins.2.1 joins.2.2⟩

theorem listing_fill_iff (empty : ∀ m < base, view m = none) :
    listing ok rank (min base k) (Function.update view k (some x)) =
      insert (k, rank x) (listing ok rank base view) ↔ Extends ok rank base view k x := by
  rcases Nat.lt_or_ge k base with below | inside
  · rw [Nat.min_eq_right below.le, listing_fill_below_iff empty below]
    simp only [Extends, below, Nat.not_le.mpr below, forall_const, false_imp_iff, and_true]
  · rw [Nat.min_eq_left inside, listing_fill_inside_iff inside]
    simp only [Extends, inside, Nat.not_lt.mpr inside, forall_const, false_imp_iff, true_and]

/-- A bad cell behind the end of the block, or in front of an empty one, changes nothing. -/
theorem listing_fill_bad (bad : ¬ ok x) (outside : ¬ Linked ok base view (max base k)) :
    listing ok rank (min base k) (Function.update view k (some x)) = listing ok rank base view := by
  have before : ∀ n, Linked ok base view n → n < k := by
    intro n linked
    by_contra late
    apply outside
    refine ⟨le_max_left _ _, fun m above le => linked.2 m above ?_⟩
    exact le.trans (max_le linked.1 (Nat.not_lt.mp late))
  ext ⟨n, r⟩
  by_cases here : n = k
  · subst here
    rw [mem_listing_fill_self]
    constructor
    · exact fun listed => absurd listed.1.2.1 bad
    · exact fun listed => absurd (before n listed.1) (lt_irrefl n)
  · rw [mem_listing_fill_of_ne here]
    simp only [listing, Set.mem_ofPred_eq]
    constructor
    · intro listed
      obtain ⟨⟨start, front⟩, good, content⟩ := listed
      have early : n < k := Nat.not_le.mp fun late => bad (good (Nat.min_le_right _ _) late)
      exact ⟨⟨by omega, fun m above le => front m (by omega) le (by omega)⟩, content⟩
    · intro listed
      obtain ⟨linked, content⟩ := listed
      have early := before n linked
      have above := linked.1
      refine ⟨⟨by omega, fun m low le _ => linked.2 m (by omega) le⟩, fun _ late => ?_, content⟩
      omega

/-- Replacing a listed cell by a good one is a change of its own entry, whatever follows. -/
theorem listing_replace (rank : α → ρ) (linked : Linked ok base view k)
    (held : view k = some old) (good : ok x) :
    listing ok rank base (Function.update view k (some x)) =
      insert (k, rank x) (listing ok rank base view \ {(k, rank old)}) := by
  ext ⟨n, r⟩
  rw [Set.mem_insert_iff, Set.mem_sdiff, Set.mem_singleton_iff, Prod.mk.injEq, Prod.mk.injEq]
  by_cases here : n = k
  · subst here
    rw [mem_listing_fill_self]
    constructor
    · intro listed
      exact .inl ⟨rfl, listed.2.symm⟩
    · intro listed
      refine ⟨⟨linked.1, good, fun m above before => linked.2 m above before.le⟩, ?_⟩
      rcases listed with same | listed
      · exact same.2.symm
      · obtain ⟨⟨-, y, found, ranked⟩, differ⟩ := listed
        rw [held, Option.some.injEq] at found
        exact absurd ⟨rfl, found ▸ ranked.symm⟩ differ
  · rw [mem_listing_fill_of_ne here]
    simp only [here, false_and, false_or, not_false_eq_true, and_true]
    constructor
    · intro listed
      refine ⟨⟨listed.1.1, fun m above le => ?_⟩, listed.2.2⟩
      by_cases same : m = k
      · exact same ▸ linked.2 k linked.1 le_rfl
      · exact listed.1.2 m above le same
    · intro listed
      exact ⟨⟨listed.1.1, fun m above le _ => listed.1.2 m above le⟩, fun _ _ => good, listed.2⟩

end Bulkmail.Library
