import Mathlib.Algebra.Order.Field.Power
import Mathlib.Data.Int.Log
import Mathlib.Data.Rat.Floor
import Mathlib.Tactic.Linarith
import Mathlib.Tactic.NormNum
import Mathlib.Tactic.Positivity
import Mathlib.Tactic.Ring

/-!
# Rounding of rational numbers

A sum of two floats need not be a float. What the machine answers is the rational sum rounded to
24 bits, the even of two neighbors where both are equally near.

* `nearest`      the whole number nearest to a rational one;
* `spacing`      the exponent of the last bit of a float near a number;
* `rnd`          a number rounded to a multiple of two to the power of its spacing;
* `rnd_of_bits`  what has 24 bits stays what it is.
-/

namespace HueSaturation
namespace Binary32

/-- The whole number nearest to `q`; of two equally near ones the even one. -/
def nearest (q : ℚ) : ℤ :=
  if q - ⌊q⌋ < 1 / 2 then ⌊q⌋ else if q - ⌊q⌋ = 1 / 2 then ⌊q⌋ + ⌊q⌋ % 2 else ⌊q⌋ + 1

theorem nearest_of_lt {q : ℚ} {k : ℤ} (h1 : k ≤ q) (h2 : q < k + 1 / 2) : nearest q = k := by
  have hk : ⌊q⌋ = k := Int.floor_eq_iff.2 ⟨h1, by linarith⟩
  rw [nearest, hk, if_pos (by linarith)]

theorem nearest_of_eq {q : ℚ} {k : ℤ} (h1 : q = k + 1 / 2) : nearest q = k + k % 2 := by
  have hk : ⌊q⌋ = k := Int.floor_eq_iff.2 ⟨by linarith, by linarith⟩
  rw [nearest, hk, if_neg (by linarith), if_pos (by linarith)]

theorem nearest_of_gt {q : ℚ} {k : ℤ} (h1 : k + 1 / 2 < q) (h2 : q < k + 1) :
    nearest q = k + 1 := by
  have hk : ⌊q⌋ = k := Int.floor_eq_iff.2 ⟨by linarith, h2⟩
  rw [nearest, hk, if_neg (by linarith), if_neg (by linarith)]

theorem nearest_intCast (k : ℤ) : nearest k = k :=
  nearest_of_lt le_rfl (by linarith)

/-- Every number lies in the lower half, the middle or the upper half of a unit. -/
theorem exists_unit (q : ℚ) :
    ∃ k : ℤ, (k ≤ q ∧ q < k + 1 / 2) ∨ q = k + 1 / 2 ∨ (k + 1 / 2 < q ∧ q < k + 1) := by
  refine ⟨⌊q⌋, ?_⟩
  have h1 := Int.floor_le q
  have h2 := Int.lt_floor_add_one q
  rcases lt_trichotomy q (⌊q⌋ + 1 / 2) with h | h | h
  · exact .inl ⟨h1, h⟩
  · exact .inr (.inl h)
  · exact .inr (.inr ⟨h, h2⟩)

theorem nearest_neg (q : ℚ) : nearest (-q) = -nearest q := by
  obtain ⟨k, ⟨h1, h2⟩ | h1 | ⟨h1, h2⟩⟩ := exists_unit q
  · rcases h1.eq_or_lt with h | h
    · rw [← h, nearest_intCast, ← Int.cast_neg, nearest_intCast]
    · rw [nearest_of_lt h1 h2, nearest_of_gt (k := -k - 1) (by push_cast; linarith)
        (by push_cast; linarith)]
      ring
  · rw [nearest_of_eq h1, nearest_of_eq (k := -k - 1) (by push_cast; linarith)]
    omega
  · rw [nearest_of_gt h1 h2, nearest_of_lt (k := -k - 1) (by push_cast; linarith)
      (by push_cast; linarith)]
    ring

/-- A whole number on one side of `q` is on that side of what `q` is rounded to. -/
theorem nearest_le {q : ℚ} {n : ℤ} (h1 : q ≤ n) : nearest q ≤ n := by
  obtain ⟨k, ⟨h2, h3⟩ | h2 | ⟨h2, h3⟩⟩ := exists_unit q
  · rw [nearest_of_lt h2 h3]
    exact_mod_cast h2.trans h1
  · have : (k : ℚ) < n := by linarith
    have : k < n := by exact_mod_cast this
    rw [nearest_of_eq h2]
    omega
  · have : (k : ℚ) < n := by linarith
    have : k < n := by exact_mod_cast this
    rw [nearest_of_gt h2 h3]
    omega

theorem le_nearest {q : ℚ} {n : ℤ} (h1 : n ≤ q) : n ≤ nearest q := by
  have h2 : nearest (-q) ≤ -n := nearest_le (by push_cast; linarith)
  rw [nearest_neg] at h2
  omega

/-! ## rounding to 24 bits -/

/-- The exponent of the last bit that a float near `q` has. -/
def spacing (q : ℚ) : ℤ :=
  max (Int.log 2 |q| - 23) (-149)

/-- `q` rounded to 24 bits, or to a multiple of the least float; the exponent has no upper end. -/
def rnd (q : ℚ) : ℚ :=
  nearest (q / 2 ^ spacing q) * 2 ^ spacing q

theorem spacing_neg (q : ℚ) : spacing (-q) = spacing q := by
  rw [spacing, spacing, abs_neg]

theorem rnd_neg (q : ℚ) : rnd (-q) = -rnd q := by
  rw [rnd, rnd, spacing_neg, neg_div, nearest_neg]
  push_cast
  ring

theorem rnd_zero : rnd 0 = 0 := by
  rw [rnd, zero_div, show ((0 : ℚ)) = ((0 : ℤ) : ℚ) from rfl, nearest_intCast]
  simp

/-- The exponent in front of `q`, from the powers of two around it. -/
theorem log_eq {q : ℚ} {k : ℤ} (h1 : 2 ^ k ≤ q) (h2 : q < 2 ^ (k + 1)) : Int.log 2 q = k := by
  have hq : 0 < q := lt_of_lt_of_le (by positivity) h1
  have h3 : k ≤ Int.log 2 q := (Int.zpow_le_iff_le_log (by norm_num) hq).1 h1
  have h4 : Int.log 2 q < k + 1 := (Int.lt_zpow_iff_log_lt (by norm_num) hq).1 h2
  omega

/-- A number of 24 bits, none below the least float, is not changed. -/
theorem rnd_of_bits {m e : ℤ} (h1 : |m| < 2 ^ 24) (h2 : -149 ≤ e) :
    rnd (m * 2 ^ e) = m * 2 ^ e := by
  rcases eq_or_ne m 0 with rfl | hm
  · simp [rnd_zero]
  have hpos : (0 : ℚ) < |(m : ℚ) * 2 ^ e| := by positivity
  have habs : |(m : ℚ) * 2 ^ e| < 2 ^ (24 + e) := by
    have h3 : |(m : ℚ)| < 2 ^ 24 := by exact_mod_cast h1
    rw [abs_mul, abs_of_pos (by positivity : (0 : ℚ) < 2 ^ e), zpow_add₀ (by norm_num)]
    gcongr
    simpa using h3
  have hlog : Int.log 2 |(m : ℚ) * 2 ^ e| < 24 + e :=
    (Int.lt_zpow_iff_log_lt (by norm_num) hpos).1 (by exact_mod_cast habs)
  have hle : spacing (m * 2 ^ e) ≤ e := max_le (by omega) h2
  -- measured in last places the number is whole
  have hwhole : (m : ℚ) * 2 ^ e / 2 ^ spacing (m * 2 ^ e)
      = ((m * 2 ^ (e - spacing (m * 2 ^ e)).toNat : ℤ) : ℚ) := by
    have h3 : (2 : ℚ) ^ e
        = 2 ^ (e - spacing (m * 2 ^ e)).toNat * 2 ^ spacing (m * 2 ^ e) := by
      rw [← zpow_natCast, ← zpow_add₀ (by norm_num)]
      congr 1
      omega
    rw [div_eq_iff (by positivity)]
    push_cast
    rw [mul_assoc, ← h3]
  rw [rnd, hwhole, nearest_intCast, ← hwhole, div_mul_cancel₀ _ (by positivity)]

theorem rnd_intCast {n : ℤ} (h1 : |n| ≤ 2 ^ 24) : rnd n = n := by
  rcases h1.lt_or_eq with h | h
  · have := rnd_of_bits h (e := 0) (by norm_num)
    simpa using this
  · have h2 : (n : ℚ) = ((n / 2 : ℤ) : ℚ) * 2 ^ (1 : ℤ) := by
      have h3 : n = n / 2 * 2 := by
        rcases abs_eq (by norm_num : (0 : ℤ) ≤ 2 ^ 24) |>.1 h with rfl | rfl <;> norm_num
      have h4 : (n : ℚ) = ((n / 2 * 2 : ℤ) : ℚ) := by rw [← h3]
      rw [h4]
      push_cast
      ring
    rw [h2, rnd_of_bits _ (by norm_num)]
    rcases abs_eq (by norm_num : (0 : ℤ) ≤ 2 ^ 24) |>.1 h with rfl | rfl <;> norm_num

end Binary32
end HueSaturation
