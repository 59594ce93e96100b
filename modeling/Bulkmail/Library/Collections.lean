import Mathlib

/-! # Lists, ordered sets and finite maps

An ordered key set is a `Finset` over a linear order, read from its first key; of a set
of numbers one can also ask for the first that it leaves free.
A hash map is a `Finmap`, whose iteration order is nobody's business: a loop over
its values is a commutative fold, and a quantity summed over them changes at one
key at a time.
-/

namespace Bulkmail.Library

section Lists

variable {α : Type*} {l : List α} {i : ℕ} {a b c : α}

/-- Overwriting one element loses no other. -/
theorem mem_set_of_mem (found : l[i]? = some a) (other : a ≠ c) (member : c ∈ l) :
    c ∈ l.set i b := by
  obtain ⟨j, at_⟩ := List.mem_iff_getElem?.mp member
  have elsewhere : i ≠ j := by
    rintro rfl
    exact other (Option.some.inj (found.symm.trans at_))
  exact List.mem_of_getElem? ((List.getElem?_set_ne elsewhere).trans at_)

theorem getElem?_append_of_some (found : l[i]? = some a) (more : List α) :
    (l ++ more)[i]? = some a :=
  (List.getElem?_append_left (List.getElem?_eq_some_iff.mp found).1).trans found

theorem getElem?_append_one (found : (l ++ [a])[i]? = some c) :
    l[i]? = some c ∨ i = l.length ∧ c = a := by
  rcases Nat.lt_or_ge i l.length with inside | outside
  · exact .inl ((List.getElem?_append_left inside).symm.trans found)
  · rw [List.getElem?_append_right outside, List.getElem?_singleton] at found
    obtain ⟨last, same⟩ := Option.ite_none_right_eq_some.mp found
    exact .inr ⟨by omega, (Option.some.inj same).symm⟩

theorem countP_append_one (p : α → Bool) (l : List α) (a : α) :
    (l ++ [a]).countP p = l.countP p + (p a).toNat := by
  rw [List.countP_append, List.countP_singleton]
  cases p a <;> rfl

theorem countP_set_add (p : α → Bool) (found : l[i]? = some a) (b : α) :
    (l.set i b).countP p + (p a).toNat = l.countP p + (p b).toNat := by
  induction l generalizing i with
  | nil => simp at found
  | cons head rest ih =>
      cases i with
      | zero =>
          obtain rfl : head = a := by simpa using found
          simp only [List.set_cons_zero, List.countP_cons, Bool.cond_eq_ite, Bool.toNat]
          omega
      | succ i =>
          have later := ih (by simpa using found)
          simp only [List.set_cons_succ, List.countP_cons]
          omega

theorem sum_map_set_add (f : α → ℕ) (found : l[i]? = some a) (b : α) :
    ((l.set i b).map f).sum + f a = (l.map f).sum + f b := by
  induction l generalizing i with
  | nil => simp at found
  | cons head rest ih =>
      cases i with
      | zero =>
          obtain rfl : head = a := by simpa using found
          simp only [List.set_cons_zero, List.map_cons, List.sum_cons]
          omega
      | succ i =>
          have later := ih (by simpa using found)
          simp only [List.set_cons_succ, List.map_cons, List.sum_cons]
          omega

theorem sum_map_eraseIdx_add (f : α → ℕ) (found : l[i]? = some a) :
    ((l.eraseIdx i).map f).sum + f a = (l.map f).sum := by
  obtain ⟨inside, rfl⟩ := List.getElem?_eq_some_iff.mp found
  have perm := ((List.getElem_cons_eraseIdx_perm inside).map f).sum_eq
  rw [List.map_cons, List.sum_cons] at perm
  omega

theorem countP_eraseIdx_add (p : α → Bool) (found : l[i]? = some a) :
    (l.eraseIdx i).countP p + (p a).toNat = l.countP p := by
  obtain ⟨inside, rfl⟩ := List.getElem?_eq_some_iff.mp found
  rw [← (List.getElem_cons_eraseIdx_perm inside).countP_eq p, List.countP_cons]
  cases p l[i] <;> rfl

theorem filterMap_cons_eq {β : Type*} (f : α → Option β) (head : α) (rest : List α) :
    (head :: rest).filterMap f = (f head).toList ++ rest.filterMap f := by
  cases known : f head with
  | none => simp [known]
  | some c => simp [known]

/-- Replacing an element trades what it contributes for what the new one does. -/
theorem filterMap_set_perm {β : Type*} (f : α → Option β) (found : l[i]? = some a) (b : α) :
    ((f a).toList ++ (l.set i b).filterMap f).Perm ((f b).toList ++ l.filterMap f) := by
  induction l generalizing i with
  | nil => simp at found
  | cons head rest ih =>
      cases i with
      | zero =>
          obtain rfl : head = a := by simpa using found
          rw [List.set_cons_zero, filterMap_cons_eq, filterMap_cons_eq]
          exact List.perm_append_comm_assoc _ _ _
      | succ i =>
          have later := ih (by simpa using found)
          rw [List.set_cons_succ, filterMap_cons_eq, filterMap_cons_eq]
          apply (List.perm_append_comm_assoc _ _ _).trans
          apply (later.append_left _).trans
          exact List.perm_append_comm_assoc _ _ _

/-- One more element counts for the weaker property. -/
theorem countP_lt_countP {p q : α → Bool} (found : l[i]? = some a) (weaker : ∀ a, p a → q a)
    (fails : p a = false) (holds : q a) : l.countP p < l.countP q := by
  have some_ := countP_eraseIdx_add p found
  have more := countP_eraseIdx_add q found
  have rest := List.countP_mono_left (l := l.eraseIdx i) fun a _ => weaker a
  rw [fails, Bool.toNat_false] at some_
  rw [holds, Bool.toNat_true] at more
  omega

end Lists

section FirstKey

variable {κ : Type*} [LinearOrder κ]

/-- The least key of an ordered set. -/
def firstKey (keys : Finset κ) : Option κ :=
  if inhabited : keys.Nonempty then some (keys.min' inhabited) else none

theorem firstKey_eq_none_iff {keys : Finset κ} : firstKey keys = none ↔ keys = ∅ := by
  unfold firstKey
  split
  · rename_i inhabited
    simp [inhabited.ne_empty]
  · rename_i vacant
    simpa using vacant

theorem firstKey_mem {keys : Finset κ} {k : κ} (first : firstKey keys = some k) : k ∈ keys := by
  unfold firstKey at first
  split at first
  · obtain rfl := Option.some.inj first
    exact keys.min'_mem _
  · cases first

theorem firstKey_le {keys : Finset κ} {k other : κ} (first : firstKey keys = some k)
    (member : other ∈ keys) : k ≤ other := by
  unfold firstKey at first
  split at first
  · obtain rfl := Option.some.inj first
    exact keys.min'_le other member
  · cases first

theorem firstKey_filter {keys : Finset κ} {k : κ} {p : κ → Prop} [DecidablePred p]
    (first : firstKey keys = some k) (kept : p k) : firstKey (keys.filter p) = some k := by
  have member : k ∈ keys.filter p := Finset.mem_filter.mpr ⟨firstKey_mem first, kept⟩
  cases found : firstKey (keys.filter p) with
  | none => simp [firstKey_eq_none_iff.mp found] at member
  | some other =>
      have least := firstKey_le first (Finset.mem_filter.mp (firstKey_mem found)).1
      rw [le_antisymm (firstKey_le found member) least]

end FirstKey

section Free

variable {base : ℕ} {taken : Finset ℕ}

/-- A finite set leaves a number free within its size of any base, and there is a first one. -/
theorem exists_isLeast_free (base : ℕ) (taken : Finset ℕ) :
    ∃ n, IsLeast {free | base ≤ free ∧ free ∉ taken} n ∧ n ≤ base + taken.card := by
  have crowded : taken.card < (Finset.Icc base (base + taken.card)).card := by
    rw [Nat.card_Icc]
    omega
  obtain ⟨free, near, absent⟩ := Finset.exists_mem_notMem_of_card_lt_card crowded
  rw [Finset.mem_Icc] at near
  have inhabited : ∃ free, base ≤ free ∧ free ∉ taken := ⟨free, near.1, absent⟩
  have least : IsLeast {free | base ≤ free ∧ free ∉ taken} (Nat.find inhabited) :=
    ⟨Nat.find_spec inhabited, fun other member => Nat.find_min' inhabited member⟩
  exact ⟨_, least, (least.2 ⟨near.1, absent⟩).trans near.2⟩

/-- A base that is taken can be left out of the search. -/
theorem free_succ (member : base ∈ taken) :
    {free | base ≤ free ∧ free ∉ taken} = {free | base + 1 ≤ free ∧ free ∉ taken} := by
  ext free
  constructor
  · intro found
    have differ : base ≠ free := fun same => found.2 (same ▸ member)
    exact ⟨Nat.lt_of_le_of_ne found.1 differ, found.2⟩
  · exact fun found => ⟨Nat.le_of_succ_le found.1, found.2⟩

end Free

section Maps

variable {K V κ : Type*} [DecidableEq K] [DecidableEq κ]

theorem lookup_insert_eq (m : Finmap fun _ : K => V) (a b : K) (v : V) :
    (m.insert a v).lookup b = if b = a then some v else m.lookup b := by
  split
  · rename_i same
    rw [same, Finmap.lookup_insert]
  · rename_i other
    rw [Finmap.lookup_insert_of_ne m other]

theorem insert_of_lookup {m : Finmap fun _ : K => V} {a : K} {v : V}
    (found : m.lookup a = some v) : m.insert a v = m := by
  apply Finmap.ext_lookup
  intro b
  rw [lookup_insert_eq]
  split
  · rename_i same
    rw [same, found]
  · rfl

/-- A loop over the values that only ever adds keys to a set collects exactly
    what the single values contribute. -/
theorem mem_foldl_iff {add : Finset κ → V → Finset κ} (adds : ∀ acc v, add acc v = acc ∪ add ∅ v)
    (comm : ∀ (acc : Finset κ) (_ : K) v (_ : K) v', add (add acc v) v' = add (add acc v') v)
    (m : Finmap fun _ : K => V) {k : κ} :
    k ∈ m.foldl (fun acc _ v => add acc v) comm ∅ ↔ ∃ a v, m.lookup a = some v ∧ k ∈ add ∅ v := by
  have collected : ∀ (entries : List (Sigma fun _ : K => V)) (acc : Finset κ),
      k ∈ entries.foldl (fun acc e => add acc e.2) acc ↔
        k ∈ acc ∨ ∃ e ∈ entries, k ∈ add ∅ e.2 := by
    intro entries
    induction entries with
    | nil => simp
    | cons e rest ih =>
        intro acc
        rw [List.foldl_cons, ih, adds acc e.2, Finset.mem_union]
        simp only [List.mem_cons, exists_eq_or_imp, or_assoc]
  have found : ∀ a v, m.lookup a = some v ↔ Sigma.mk a v ∈ m.entries :=
    fun a v => Finmap.mem_lookup_iff
  simp only [found]
  obtain ⟨⟨entries⟩, distinct⟩ := m
  change k ∈ entries.foldl (fun acc e => add acc e.2) ∅ ↔
    ∃ a v, Sigma.mk a v ∈ entries ∧ k ∈ add ∅ v
  rw [collected]
  simp only [Finset.notMem_empty, false_or]
  exact ⟨fun ⟨e, member, inside⟩ => ⟨e.1, e.2, member, inside⟩,
    fun ⟨a, v, member, inside⟩ => ⟨⟨a, v⟩, member, inside⟩⟩

theorem mem_biUnion_values {content : V → Finset κ} (m : Finmap fun _ : K => V) {k : κ} :
    (k ∈ m.keys.biUnion fun a => (m.lookup a).elim ∅ content) ↔
      ∃ a v, m.lookup a = some v ∧ k ∈ content v := by
  rw [Finset.mem_biUnion]
  constructor
  · intro listed
    obtain ⟨a, -, member⟩ := listed
    cases found : m.lookup a with
    | none => simp [found] at member
    | some v => exact ⟨a, v, found, by simpa [found] using member⟩
  · intro listed
    obtain ⟨a, v, found, member⟩ := listed
    refine ⟨a, Finmap.mem_keys.mpr (Finmap.mem_of_lookup_eq_some found), ?_⟩
    simpa [found] using member

/-- A quantity summed over all values of the map. -/
def total (weight : V → ℕ) (m : Finmap fun _ : K => V) : ℕ :=
  ∑ a ∈ m.keys, (m.lookup a).elim 0 weight

variable {weight : V → ℕ}

/-- The sum splits off any single key, mapped or not. -/
theorem total_eq_at_add (m : Finmap fun _ : K => V) (a : K) :
    total weight m =
      (m.lookup a).elim 0 weight + ∑ b ∈ m.keys.erase a, (m.lookup b).elim 0 weight := by
  by_cases known : a ∈ m
  · exact (Finset.add_sum_erase m.keys _ (Finmap.mem_keys.mpr known)).symm
  · have absent : a ∉ m.keys := fun member => known (Finmap.mem_keys.mp member)
    rw [Finmap.lookup_eq_none.mpr known, Finset.erase_eq_of_notMem absent]
    exact (Nat.zero_add _).symm

theorem total_insert (m : Finmap fun _ : K => V) (a : K) (v : V) :
    total weight (m.insert a v) + (m.lookup a).elim 0 weight = total weight m + weight v := by
  have others : ∑ b ∈ (m.insert a v).keys.erase a, ((m.insert a v).lookup b).elim 0 weight =
      ∑ b ∈ m.keys.erase a, (m.lookup b).elim 0 weight := by
    have keys : (m.insert a v).keys.erase a = m.keys.erase a := by
      ext b
      simp only [Finset.mem_erase, Finmap.mem_keys, Finmap.mem_insert]
      tauto
    rw [keys]
    refine Finset.sum_congr rfl fun b member => ?_
    rw [lookup_insert_eq, if_neg (Finset.ne_of_mem_erase member)]
  rw [total_eq_at_add (m.insert a v) a, total_eq_at_add m a, others, Finmap.lookup_insert,
    Option.elim_some]
  omega

/-- The sum is the size of the union of what the values stand for, as long as
    different keys stand for disjoint things. -/
theorem total_eq_card_biUnion (content : K → V → Finset κ) (m : Finmap fun _ : K => V)
    (sized : ∀ a v, m.lookup a = some v → (content a v).card = weight v)
    (apart : ∀ a v b w, m.lookup a = some v → m.lookup b = some w → a ≠ b →
      Disjoint (content a v) (content b w)) :
    total weight m = (m.keys.biUnion fun a => (m.lookup a).elim ∅ (content a)).card := by
  rw [Finset.card_biUnion, total]
  · refine Finset.sum_congr rfl fun a _ => ?_
    cases found : m.lookup a with
    | none => rfl
    | some v => exact (sized a v found).symm
  · intro a _ b _ differ
    change Disjoint ((m.lookup a).elim ∅ (content a)) ((m.lookup b).elim ∅ (content b))
    cases left : m.lookup a with
    | none => exact Finset.disjoint_empty_left _
    | some v =>
        cases right : m.lookup b with
        | none => exact Finset.disjoint_empty_right _
        | some w => exact apart a v b w left right differ

end Maps

end Bulkmail.Library
