import Mathlib

/-! # Rounding to a binary format

The nonnegative numbers of a binary floating-point format are the integers of so many bits
times powers of two, the exponents bounded below.  Rounding goes to the nearest of them,
between two to the one with the even significand.  It keeps the order and leaves the
numbers of the format alone, so a bound by one of them survives it.
-/

namespace Bulkmail.Library

/-- The nearest integer, between two the even one. -/
def halfEven (q : ℚ) : ℤ :=
  if q - ⌊q⌋ < 1 / 2 ∨ q - ⌊q⌋ = 1 / 2 ∧ ⌊q⌋ % 2 = 0 then ⌊q⌋ else ⌊q⌋ + 1

section HalfEven

variable {q q' : ℚ} {n : ℤ}

theorem halfEven_bounds (q : ℚ) : ⌊q⌋ ≤ halfEven q ∧ halfEven q ≤ ⌊q⌋ + 1 := by
  unfold halfEven
  split <;> omega

theorem halfEven_intCast (n : ℤ) : halfEven n = n := by
  simp [halfEven]

theorem halfEven_mono (le : q ≤ q') : halfEven q ≤ halfEven q' := by
  have floors := Int.floor_le_floor le
  obtain ⟨-, upper⟩ := halfEven_bounds q
  obtain ⟨lower, -⟩ := halfEven_bounds q'
  rcases floors.lt_or_eq with below | same
  · omega
  · -- between the same two integers, what is farther up goes up as well
    unfold halfEven
    rw [← same]
    split
    · split <;> omega
    · rename_i up
      rw [if_neg]
      intro down
      apply up
      rcases down with near | ⟨tie, even⟩
      · left
        linarith
      · rcases le.lt_or_eq with less | equal
        · left
          linarith
        · right
          exact ⟨equal ▸ tie, even⟩

theorem halfEven_le (bounded : q ≤ n) : halfEven q ≤ n := by
  have rounded := halfEven_mono bounded
  rwa [halfEven_intCast] at rounded

theorem le_halfEven (bounded : n ≤ q) : n ≤ halfEven q := by
  have rounded := halfEven_mono bounded
  rwa [halfEven_intCast] at rounded

end HalfEven

/-- Significands of so many bits, exponents from the least one up. -/
structure FloatFormat where
  precision : ℕ
  leastExponent : ℤ
  positive : 0 < precision

namespace FloatFormat

def binary64 : FloatFormat := ⟨53, -1074, by decide⟩

variable (format : FloatFormat) (q : ℚ)

/-- The exponent of the last bit at a positive number. -/
def exponent : ℤ := max (Int.log 2 q - (format.precision - 1)) format.leastExponent

def round : ℚ := halfEven (q / 2 ^ format.exponent q) * 2 ^ format.exponent q

theorem round_zero : format.round 0 = 0 := by
  have nothing : halfEven 0 = 0 := by simpa using halfEven_intCast 0
  simp [round, nothing]

/-- The last bit is the last of at most so many. -/
theorem lt_two_zpow : q < 2 ^ (format.exponent q + format.precision) := by
  have top : q < (2 : ℚ) ^ (Int.log 2 q + 1) := by
    exact_mod_cast Int.lt_zpow_succ_log_self (b := 2) (by norm_num) q
  apply top.trans_le
  apply zpow_le_zpow_right₀ (by norm_num)
  have := le_max_left (Int.log 2 q - (format.precision - 1)) format.leastExponent
  simp only [exponent]
  omega

theorem round_le_two_zpow : format.round q ≤ 2 ^ (format.exponent q + format.precision) := by
  have scaled : q / 2 ^ format.exponent q ≤ ((2 ^ format.precision : ℤ) : ℚ) := by
    rw [div_le_iff₀ (by positivity)]
    have top := (format.lt_two_zpow q).le
    rw [zpow_add₀ (by norm_num), mul_comm] at top
    exact_mod_cast top
  have rounded := halfEven_le scaled
  rw [zpow_add₀ (by norm_num), mul_comm, round]
  apply mul_le_mul_of_nonneg_right _ (by positivity)
  exact_mod_cast rounded

variable {format q} {q' : ℚ}

theorem round_nonneg (nonneg : 0 ≤ q) : 0 ≤ format.round q := by
  have scaled : ((0 : ℤ) : ℚ) ≤ q / 2 ^ format.exponent q := by
    rw [Int.cast_zero]
    positivity
  have rounded := le_halfEven scaled
  exact mul_nonneg (by exact_mod_cast rounded) (by positivity)

/-- Above the least exponent the first bit is set. -/
theorem two_zpow_le_round (positive : 0 < q) (room : format.leastExponent < format.exponent q) :
    2 ^ (format.exponent q + format.precision - 1) ≤ format.round q := by
  have width := format.positive
  have last : format.exponent q = Int.log 2 q - (format.precision - 1) := by
    simp only [exponent] at room ⊢
    omega
  have first : (2 : ℚ) ^ (format.exponent q + format.precision - 1) ≤ q := by
    have bottom := Int.zpow_log_le_self (b := 2) (by norm_num) positive
    have same : format.exponent q + format.precision - 1 = Int.log 2 q := by omega
    rw [same]
    exact_mod_cast bottom
  have split : (2 : ℚ) ^ (format.exponent q + format.precision - 1) =
      ((2 ^ (format.precision - 1) : ℤ) : ℚ) * 2 ^ format.exponent q := by
    push_cast
    rw [← zpow_natCast, ← zpow_add₀ (by norm_num), Nat.cast_sub width]
    congr 1
    omega
  have scaled : ((2 ^ (format.precision - 1) : ℤ) : ℚ) ≤ q / 2 ^ format.exponent q := by
    rw [le_div_iff₀ (by positivity), ← split]
    exact first
  rw [split, round]
  apply mul_le_mul_of_nonneg_right _ (by positivity)
  exact_mod_cast le_halfEven scaled

theorem exponent_mono (positive : 0 < q) (le : q ≤ q') :
    format.exponent q ≤ format.exponent q' := by
  have logs : Int.log 2 q ≤ Int.log 2 q' := Int.log_mono_right positive le
  simp only [exponent]
  omega

theorem round_mono (nonneg : 0 ≤ q) (le : q ≤ q') : format.round q ≤ format.round q' := by
  rcases nonneg.eq_or_lt with rfl | positive
  · rw [round_zero]
    exact round_nonneg le
  have exponents : format.exponent q ≤ format.exponent q' := exponent_mono positive le
  rcases exponents.eq_or_lt with same | less
  · rw [round, round, ← same]
    apply mul_le_mul_of_nonneg_right _ (by positivity)
    exact_mod_cast halfEven_mono (div_le_div_of_nonneg_right le (by positivity))
  · -- a power of two lies between them
    have room : format.leastExponent < format.exponent q' :=
      (le_max_right _ _).trans_lt less
    apply (format.round_le_two_zpow q).trans
    apply le_trans _ (two_zpow_le_round (positive.trans_le le) room)
    apply zpow_le_zpow_right₀ (by norm_num)
    omega

theorem round_eq_self_of_grid {n : ℤ} (grid : q = n * 2 ^ format.exponent q) :
    format.round q = q := by
  have scaled : q / 2 ^ format.exponent q = n := by
    rw [div_eq_iff (by positivity)]
    exact grid
  rw [round, scaled, halfEven_intCast, ← grid]

/-- A number of the format is rounded to itself. -/
theorem round_eq_self {m : ℕ} {e : ℤ} (narrow : m ≤ 2 ^ format.precision)
    (fine : format.leastExponent ≤ e) : format.round (m * 2 ^ e) = m * 2 ^ e := by
  rcases Nat.eq_zero_or_pos m with rfl | some_
  · simp [round_zero]
  have positive : (0 : ℚ) < m * 2 ^ e := by positivity
  have top : (m * 2 ^ e : ℚ) ≤ 2 ^ (format.precision + e) := by
    rw [zpow_add₀ (by norm_num), zpow_natCast]
    apply mul_le_mul_of_nonneg_right _ (by positivity)
    exact_mod_cast narrow
  rcases le_or_gt (format.exponent (m * 2 ^ e)) e with coarse | finer
  · obtain ⟨k, above⟩ := Int.le.dest coarse
    apply round_eq_self_of_grid (n := m * 2 ^ k)
    push_cast
    rw [mul_assoc, ← zpow_natCast, ← zpow_add₀ (by norm_num)]
    congr 2
    omega
  · -- only the power of two that ends the range has a coarser last bit
    have bottom : (2 : ℚ) ^ Int.log 2 (m * 2 ^ e : ℚ) ≤ m * 2 ^ e := by
      exact_mod_cast Int.zpow_log_le_self (b := 2) (by norm_num) positive
    have logs : Int.log 2 (m * 2 ^ e : ℚ) ≤ format.precision + e :=
      (zpow_le_zpow_iff_right₀ (by norm_num)).mp (bottom.trans top)
    have width := format.positive
    have last : format.exponent (m * 2 ^ e) = e + 1 ∧
        Int.log 2 (m * 2 ^ e : ℚ) = format.precision + e := by
      simp only [exponent] at finer ⊢
      omega
    rw [last.2] at bottom
    apply round_eq_self_of_grid (n := 2 ^ (format.precision - 1))
    rw [last.1, le_antisymm top bottom]
    push_cast
    rw [← zpow_natCast, ← zpow_add₀ (by norm_num), Nat.cast_sub width]
    congr 1
    omega

theorem round_le {m : ℕ} {e : ℤ} (narrow : m ≤ 2 ^ format.precision)
    (fine : format.leastExponent ≤ e) (nonneg : 0 ≤ q) (le : q ≤ m * 2 ^ e) :
    format.round q ≤ m * 2 ^ e :=
  (round_mono nonneg le).trans_eq (round_eq_self narrow fine)

theorem le_round {m : ℕ} {e : ℤ} (narrow : m ≤ 2 ^ format.precision)
    (fine : format.leastExponent ≤ e) (le : m * 2 ^ e ≤ q) : m * 2 ^ e ≤ format.round q :=
  (round_eq_self narrow fine).symm.trans_le (round_mono (by positivity) le)

end FloatFormat

end Bulkmail.Library
