import Mathlib

/-! # Binary64 arithmetic on small nonnegative numbers

A nonnegative finite double is a significand over a power of two.  Quotients and
products are rounded to 53 significant bits, to nearest with ties to even.  Everything
here stays below `2 ^ 52` and far from the ends of the exponent range, so no exponent
is ever out of range.
-/

namespace Bulkmail.Library

/-- The number `significand / 2 ^ scale`. -/
structure Binary64 where
  significand : ℕ
  scale : ℕ
  deriving DecidableEq, Repr

namespace Binary64

/-- `num / den` to the nearest integer, ties to the even one. -/
def nearestEven (num den : ℕ) : ℕ :=
  let floor := num / den
  let twice := 2 * (num % den)
  if twice < den ∨ twice = den ∧ floor % 2 = 0 then floor else floor + 1

/-- The scale at which `num / den` has a significand of 53 bits. -/
def scaleOf (num den : ℕ) : ℕ :=
  let scale := 53 + den.log2 - num.log2
  if num * 2 ^ scale / den < 2 ^ 53 then scale else scale - 1

/-- `num / den`, rounded. -/
def round (num den : ℕ) : Binary64 :=
  ⟨nearestEven (num * 2 ^ scaleOf num den) den, scaleOf num den⟩

/-- An integer below `2 ^ 53` is exact. -/
def ofNat (n : ℕ) : Binary64 := ⟨n, 0⟩

def div (a b : Binary64) : Binary64 :=
  round (a.significand * 2 ^ b.scale) (b.significand * 2 ^ a.scale)

def mul (a b : Binary64) : Binary64 :=
  round (a.significand * b.significand) (2 ^ (a.scale + b.scale))

/-- The conversion to an integer truncates. -/
def toNat (a : Binary64) : ℕ := a.significand / 2 ^ a.scale

/-! ## Integer bounds survive rounding -/

def AtMost (a : Binary64) (n : ℕ) : Prop := a.significand ≤ n * 2 ^ a.scale

variable {a b : Binary64} {m n num den : ℕ}

theorem nearestEven_le (bounded : num ≤ n * den) : nearestEven num den ≤ n := by
  have floor_le : num / den ≤ n := Nat.div_le_of_le_mul (Nat.mul_comm n den ▸ bounded)
  have parts := Nat.div_add_mod num den
  simp only [nearestEven]
  split
  · exact floor_le
  · rename_i upward
    rcases Nat.lt_or_ge (num / den) n with below | reached
    · exact below
    · have top : num / den = n := Nat.le_antisymm floor_le reached
      have none_left : num % den = 0 := by
        rw [top, Nat.mul_comm den n] at parts
        omega
      have den_zero : den = 0 := by
        simp only [none_left] at upward
        omega
      subst den_zero
      simp_all

theorem atMost_round (bounded : num ≤ n * den) : (round num den).AtMost n := by
  refine nearestEven_le ?_
  calc num * 2 ^ scaleOf num den
      ≤ n * den * 2 ^ scaleOf num den := Nat.mul_le_mul_right _ bounded
    _ = n * 2 ^ scaleOf num den * den := by ring

theorem atMost_ofNat (bounded : m ≤ n) : (ofNat m).AtMost n := by
  simpa [AtMost, ofNat] using bounded

theorem atMost_div_ofNat (bounded : m ≤ n) : ((ofNat m).div (ofNat n)).AtMost 1 :=
  atMost_round (by simpa [ofNat] using bounded)

theorem atMost_mul (left : a.AtMost m) (right : b.AtMost n) : (a.mul b).AtMost (m * n) := by
  refine atMost_round ?_
  calc a.significand * b.significand
      ≤ (m * 2 ^ a.scale) * (n * 2 ^ b.scale) := Nat.mul_le_mul left right
    _ = m * n * 2 ^ (a.scale + b.scale) := by ring

theorem toNat_le (bounded : a.AtMost n) : a.toNat ≤ n := by
  rw [AtMost, Nat.mul_comm] at bounded
  exact Nat.div_le_of_le_mul bounded

end Binary64

end Bulkmail.Library
