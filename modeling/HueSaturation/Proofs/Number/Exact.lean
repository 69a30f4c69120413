import Mathlib
import HueSaturation.Number.Scalar

/-!
# Exact arithmetic

Read over the real numbers the color arithmetic is the curve that the rounded one follows. There is
no "not a number", so the smaller and the larger of two are the minimum and the maximum, and what
lies in a range is not cut down.

* `instScalarReal`        the real numbers are a `Scalar`;
* `Exact.withDivision`    the same with another division, to see which divisions count;
* `Elementary.real`       the functions that the elementary ones stand for;
* `Exact.lt_iff`, `le_iff`, `bne_eq_false_iff`, `within_iff`   comparisons;
* `Exact.least_eq`, `greatest_eq`          minimum and maximum;
* `Exact.clamp_of_mem`, `unit_of_mem`      numbers in range;
* `Exact.unit_mem`, `unit_mono`            numbers brought into range;
* `Exact.turn_mem`                         angles within one turn.
-/

namespace HueSaturation

/-- The real numbers as scalars. The remainder of a division by one has the sign of the dividend. -/
noncomputable instance instScalarReal : Scalar ℝ where
  beq x y := decide (x = y)
  lt x y := decide (x < y)
  le x y := decide (x ≤ y)
  isNaN _ := false
  isFinite _ := true
  ofInt n := n
  fraction x := if 0 ≤ x then Int.fract x else -Int.fract (-x)

/-- The functions on the real numbers, with angles in radians. -/
noncomputable def Elementary.real : Elementary ℝ where
  exp2 x := 2 ^ x
  sin := Real.sin
  cos := Real.cos
  atan2 y x := Complex.arg ⟨x, y⟩
  hypot x y := √(x ^ 2 + y ^ 2)
  tau := 2 * Real.pi

namespace Exact

/-- The real numbers with `div` for the division. A value that is the same for every `div` that
divides by all numbers but zero does not depend on a division by zero. -/
@[reducible]
noncomputable def withDivision (div : ℝ → ℝ → ℝ) : Scalar ℝ :=
  { instScalarReal with div := div }

variable {x y lo hi : ℝ}

theorem zero_eq : (0.0 : ℝ) = 0 := by
  norm_num

theorem one_eq : (1.0 : ℝ) = 1 := by
  norm_num

theorem percent_eq (x : ℝ) : x / 100.0 + 1.0 = x / 100 + 1 := by
  norm_num

theorem lt_iff : Scalar.lt x y = true ↔ x < y :=
  decide_eq_true_iff

theorem le_iff : Scalar.le x y = true ↔ x ≤ y :=
  decide_eq_true_iff

theorem bne_eq_false_iff : (x != y) = false ↔ x = y := by
  show (!decide (x = y)) = false ↔ x = y
  rw [Bool.not_eq_false', decide_eq_true_iff]

theorem within_iff : Scalar.within lo hi x = true ↔ x ∈ Set.Icc lo hi := by
  rw [Scalar.within, Bool.and_eq_true, le_iff, le_iff, Set.mem_Icc]

theorem least_eq (x y : ℝ) : Scalar.least x y = min x y := by
  have hnan : Scalar.isNaN y = false := rfl
  rw [Scalar.least, hnan, Bool.false_or]
  split
  · next h => exact (min_eq_left (lt_iff.1 h).le).symm
  · next h => exact (min_eq_right (not_lt.1 fun hlt => h (lt_iff.2 hlt))).symm

theorem greatest_eq (x y : ℝ) : Scalar.greatest x y = max x y := by
  have hnan : Scalar.isNaN y = false := rfl
  rw [Scalar.greatest, hnan, Bool.false_or]
  split
  · next h => exact (max_eq_left (lt_iff.1 h).le).symm
  · next h => exact (max_eq_right (not_lt.1 fun hlt => h (lt_iff.2 hlt))).symm

theorem clamp_of_mem (h : x ∈ Set.Icc lo hi) : Scalar.clamp lo hi x = x := by
  rw [Scalar.clamp, if_neg fun hlt => (lt_iff.1 hlt).not_ge h.1,
    if_neg fun hlt => (lt_iff.1 hlt).not_ge h.2]

theorem mem_unit_iff : x ∈ Set.Icc (0.0 : ℝ) 1.0 ↔ x ∈ Set.Icc (0 : ℝ) 1 := by
  norm_num

theorem unit_of_mem (h : x ∈ Set.Icc 0 1) : Scalar.unit x = x := by
  have hnan : Scalar.isNaN x = false := rfl
  rw [Scalar.unit, hnan, if_neg Bool.false_ne_true]
  exact clamp_of_mem (mem_unit_iff.2 h)

theorem unit_eq (x : ℝ) : Scalar.unit x = max 0 (min 1 x) := by
  have hnan : Scalar.isNaN x = false := rfl
  rw [Scalar.unit, hnan, if_neg Bool.false_ne_true, Scalar.clamp, zero_eq, one_eq]
  split
  · next h => rw [max_eq_left (min_le_of_right_le (lt_iff.1 h).le)]
  split
  · next h => rw [min_eq_left (lt_iff.1 h).le, max_eq_right zero_le_one]
  · next h0 h1 =>
    have hx0 : 0 ≤ x := not_lt.1 fun h => h0 (lt_iff.2 h)
    have hx1 : x ≤ 1 := not_lt.1 fun h => h1 (lt_iff.2 h)
    rw [min_eq_right hx1, max_eq_right hx0]

theorem unit_mem (x : ℝ) : Scalar.unit x ∈ Set.Icc 0 1 := by
  rw [unit_eq]
  exact ⟨le_max_left _ _, max_le zero_le_one (min_le_left _ _)⟩

theorem unit_mono : Monotone (Scalar.unit : ℝ → ℝ) := by
  intro x y h
  rw [unit_eq, unit_eq]
  exact max_le_max_left 0 (min_le_min_left 1 h)

theorem turn_mem (x : ℝ) : Scalar.turn x ∈ Set.Icc 0 1 := by
  have hfraction : Scalar.fraction x = if 0 ≤ x then Int.fract x else -Int.fract (-x) := rfl
  rw [Scalar.turn, zero_eq, one_eq]
  simp only [lt_iff, hfraction]
  have hpos := Int.fract_nonneg x
  have hlt := Int.fract_lt_one x
  have hpos' := Int.fract_nonneg (-x)
  have hlt' := Int.fract_lt_one (-x)
  split_ifs <;> constructor <;> linarith

end Exact
end HueSaturation
