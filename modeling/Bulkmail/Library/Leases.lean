import Mathlib

/-! # Exclusive leases

Clients draw tokens from a pool that remembers which tokens are taken.  A token may be
spent while a client holds it, and then it must never be drawn again.  The pool forgets
a token only when its holder gives it back, and a client that has spent its token never
does.  Under these rules no two clients hold one token and a spent token stays taken.
-/

namespace Bulkmail.Library

variable {ι ν : Type*}

structure Leases (ι ν : Type*) where
  holder : ι → Option ν
  taken : Set ν
  spent : Set ν
  /-- The clients that will not give back what they hold. -/
  settled : Set ι

namespace Leases

structure Valid (l : Leases ι ν) : Prop where
  held : ∀ {i n}, l.holder i = some n → n ∈ l.taken
  exclusive : ∀ {i j n}, l.holder i = some n → l.holder j = some n → i = j
  spentTaken : ∀ {n}, n ∈ l.spent → n ∈ l.taken
  spentSettled : ∀ {i n}, l.holder i = some n → n ∈ l.spent → i ∈ l.settled

/-- Only client `i` changes. -/
structure Others (i : ι) (l l' : Leases ι ν) : Prop where
  holder : ∀ j, j ≠ i → l'.holder j = l.holder j
  settled : ∀ j, j ≠ i → j ∈ l.settled → j ∈ l'.settled

inductive Step (l l' : Leases ι ν) : Prop where
  | keep (i : ι) : Others i l l' → l'.holder i = l.holder i → (i ∈ l.settled → i ∈ l'.settled) →
      l.taken ⊆ l'.taken → l'.spent = l.spent → Step l l'
  | leave (i : ι) : Others i l l' → l'.holder i = none → l.taken ⊆ l'.taken →
      l'.spent = l.spent → Step l l'
  | draw (i : ι) (n : ν) : Others i l l' → n ∉ l.taken → l'.holder i = some n →
      insert n l.taken ⊆ l'.taken → l'.spent = l.spent → Step l l'
  | give (i : ι) (n : ν) : Others i l l' → l.holder i = some n → i ∉ l.settled →
      l'.holder i = none → l.taken \ {n} ⊆ l'.taken → l'.spent = l.spent → Step l l'
  | spend (i : ι) (n : ν) : Others i l l' → l.holder i = some n → l'.holder i = some n →
      i ∈ l'.settled → l.taken ⊆ l'.taken → l'.spent = insert n l.spent → Step l l'

variable {l l' : Leases ι ν} {i : ι}

namespace Valid

/-- What client `i` ends up holding decides everything; the others keep their facts as
    long as the tokens they rely on stay taken. -/
theorem of_others (valid : Valid l) (others : Others i l l')
    (own : ∀ {n}, l'.holder i = some n → n ∈ l'.taken ∧ (n ∈ l'.spent → i ∈ l'.settled) ∧
      ∀ {j}, j ≠ i → l.holder j ≠ some n)
    (kept : ∀ {j n}, j ≠ i → l.holder j = some n → n ∈ l'.taken ∧ (n ∈ l'.spent → n ∈ l.spent))
    (spent : ∀ {n}, n ∈ l'.spent → n ∈ l'.taken) : Valid l' := by
  have cases_ : ∀ {j n}, l'.holder j = some n → j = i ∨ j ≠ i ∧ l.holder j = some n := by
    intro j n holds
    by_cases same : j = i
    · exact .inl same
    · exact .inr ⟨same, others.holder j same ▸ holds⟩
  constructor
  · intro j n holds
    cases cases_ holds with
    | inl same => exact (own (same ▸ holds)).1
    | inr other => exact (kept other.1 other.2).1
  · intro j k n holds holds'
    cases cases_ holds with
    | inl same =>
        cases cases_ holds' with
        | inl same' => exact same.trans same'.symm
        | inr other => exact absurd other.2 ((own (same ▸ holds)).2.2 other.1)
    | inr other =>
        cases cases_ holds' with
        | inl same' => exact absurd other.2 ((own (same' ▸ holds')).2.2 other.1)
        | inr other' => exact valid.exclusive other.2 other'.2
  · exact spent
  · intro j n holds used
    cases cases_ holds with
    | inl same =>
        subst same
        exact (own holds).2.1 used
    | inr other =>
        have before := (kept other.1 other.2).2 used
        exact others.settled j other.1 (valid.spentSettled other.2 before)

theorem step (valid : Valid l) (stepped : Step l l') : Valid l' := by
  cases stepped with
  | keep i others same settled grown spent =>
      apply valid.of_others others
      · intro n holds
        have before := same ▸ holds
        refine ⟨grown (valid.held before), fun used => ?_, fun differ holds' => ?_⟩
        · exact settled (valid.spentSettled before (spent ▸ used))
        · exact differ (valid.exclusive holds' before)
      · intro j n _ holds
        exact ⟨grown (valid.held holds), fun used => spent ▸ used⟩
      · intro n used
        exact grown (valid.spentTaken (spent ▸ used))
  | leave i others gone grown spent =>
      apply valid.of_others others
      · intro n holds
        rw [gone] at holds
        cases holds
      · intro j n _ holds
        exact ⟨grown (valid.held holds), fun used => spent ▸ used⟩
      · intro n used
        exact grown (valid.spentTaken (spent ▸ used))
  | draw i n others fresh drawn grown spent =>
      apply valid.of_others others
      · intro m holds
        obtain rfl := Option.some.inj (drawn.symm.trans holds)
        refine ⟨grown (Set.mem_insert _ _), fun used => ?_, fun _ holds' => ?_⟩
        · exact absurd (valid.spentTaken (spent ▸ used)) fresh
        · exact fresh (valid.held holds')
      · intro j m _ holds
        exact ⟨grown (Set.mem_insert_of_mem n (valid.held holds)), fun used => spent ▸ used⟩
      · intro m used
        exact grown (Set.mem_insert_of_mem n (valid.spentTaken (spent ▸ used)))
  | give i n others holding unsettled gone grown spent =>
      apply valid.of_others others
      · intro m holds
        rw [gone] at holds
        cases holds
      · intro j m differ holds
        refine ⟨grown ⟨valid.held holds, fun same => ?_⟩, fun used => spent ▸ used⟩
        exact differ (valid.exclusive holds (same ▸ holding))
      · intro m used
        have before : m ∈ l.spent := spent ▸ used
        refine grown ⟨valid.spentTaken before, fun same => ?_⟩
        exact unsettled (valid.spentSettled holding (same ▸ before))
  | spend i n others holding holds settled grown spent =>
      apply valid.of_others others
      · intro m holds'
        obtain rfl := Option.some.inj (holds.symm.trans holds')
        exact ⟨grown (valid.held holding), fun _ => settled,
          fun differ other => differ (valid.exclusive other holding)⟩
      · intro j m differ other
        refine ⟨grown (valid.held other), fun used => ?_⟩
        rw [spent] at used
        cases used with
        | inl same => exact absurd (valid.exclusive other (same ▸ holding)) differ
        | inr before => exact before
      · intro m used
        rw [spent] at used
        cases used with
        | inl same => exact same ▸ grown (valid.held holding)
        | inr before => exact grown (valid.spentTaken before)

end Valid

end Leases

end Bulkmail.Library
