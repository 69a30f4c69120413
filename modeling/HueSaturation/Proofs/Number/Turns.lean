import HueSaturation.Proofs.Number.Same

/-!
# Turns, and the smaller and larger of two floats

An angle modulo one turn is the part of it above the whole number below, rounded: so it is in
`[0, 1]` whatever it was, unless it is no angle at all. The smaller and the larger of two floats
depend on their values only.

* `finite_fraction`               the remainder of a division by one is exact;
* `finite_turn`                   a turn is the rounded part above the whole number below;
* `turn_cases`                    a turn is "not a number" or in `[0, 1]`;
* `Same.least`, `Same.greatest`   the smaller and the larger of two floats, in value.
-/

namespace HueSaturation
namespace Binary32

variable {k : ℕ} {x y u v : Float32}

theorem inUnit_of_rounds {q : ℚ} (h1 : Rounds x q) (h2 : 0 ≤ q) (h3 : q ≤ 1) : InUnit x := by
  have h4 : |q| ≤ 2 ^ (0 : ℤ) := by
    rw [abs_of_nonneg h2, zpow_zero]
    exact h3
  obtain ⟨h5, h6, h7⟩ := h1.within h4 (by norm_num) (by norm_num)
  refine ⟨h5, by rw [h6]; exact rnd_nonneg h2, ?_⟩
  exact (le_abs_self _).trans (by rw [zpow_zero] at h7; exact h7)

/-! ## remainders -/

/-- What a float has beyond its whole part is a float, on either side of zero. -/
theorem rnd_sub_truncated (hx : x.isFinite) :
    rnd (val x - truncated (val x)) = val x - truncated (val x) := by
  rcases le_or_gt 0 (val x) with h | h
  · rw [truncated_of_nonneg h]
    exact rnd_fract hx h
  · obtain ⟨h1, h2⟩ := finite_neg hx
    have h3 : Int.fract (val (-x)) = -(val x - ⌈val x⌉) := by
      rw [h2, Int.fract, Int.floor_neg, Int.cast_neg]
      ring
    have h4 := rnd_fract h1 (by rw [h2]; linarith)
    rw [h3, rnd_neg, neg_inj] at h4
    rw [truncated_of_neg h, h4]

theorem abs_sub_truncated_lt (q : ℚ) : |q - truncated q| < 1 := by
  rcases le_or_gt 0 q with h | h
  · rw [truncated_of_nonneg h, abs_lt]
    have h1 := Int.floor_le q
    have h2 := Int.lt_floor_add_one q
    constructor <;> linarith
  · rw [truncated_of_neg h, abs_lt]
    have h1 := Int.le_ceil q
    have h2 := Int.ceil_lt_add_one q
    constructor <;> linarith

/-- The remainder of a division by one is exact. -/
theorem finite_fraction (hx : x.isFinite) :
    (fraction x).isFinite ∧ val (fraction x) = val x - truncated (val x) := by
  obtain ⟨h1, h2⟩ := finite_trunc hx
  have hlt := abs_sub_truncated_lt (val x)
  have h3 := rounds_sub hx h1
  rw [h2] at h3
  obtain ⟨h4, h5⟩ := h3.exact (rnd_sub_truncated hx) (hlt.trans (by norm_num))
  obtain ⟨h6, h7⟩ := finite_copySign (y := x) h4
  refine ⟨h6, h7.trans ?_⟩
  rw [h5]
  rcases lt_trichotomy (val x) 0 with h | h | h
  · rw [if_pos (signBit_of_neg h), truncated_of_neg h, abs_of_nonpos, neg_neg]
    linarith [Int.le_ceil (val x)]
  · rw [h, ← Int.cast_zero, truncated_intCast, sub_self, abs_zero, neg_zero, ite_self]
  · rw [signBit_of_pos h, truncated_of_nonneg h.le, abs_of_nonneg]
    · rfl
    · linarith [Int.floor_le (val x)]

theorem turn_eq (x : Float32) :
    Scalar.turn x = if fraction x < 0.0 then fraction x + 1.0 else fraction x :=
  rfl

/-- A turn is the part above the whole number below, rounded: it is a float already unless a turn
had to be added. -/
theorem finite_turn (hx : x.isFinite) :
    (Scalar.turn x).isFinite ∧ val (Scalar.turn x) = rnd (Int.fract (val x)) := by
  obtain ⟨h1, h2⟩ := finite_fraction hx
  have h3 : fraction x < 0.0 ↔ val (fraction x) < 0 := lt_iff h1 rfl
  have h4 := Int.fract_nonneg (val x)
  have h5 := Int.fract_lt_one (val x)
  rw [turn_eq]
  rcases le_or_gt 0 (val x) with h | h
  · rw [truncated_of_nonneg h] at h2
    rw [if_neg (fun hc => absurd (h3.1 hc) (by rw [h2]; exact h4.not_gt)), rnd_fract hx h]
    exact ⟨h1, h2⟩
  rw [truncated_of_neg h] at h2
  rcases (Int.le_ceil (val x)).eq_or_lt with h6 | h6
  · rw [← h6, sub_self] at h2
    rw [if_neg (fun hc => absurd (h3.1 hc) (by rw [h2]; exact lt_irrefl 0)), h6, Int.fract_intCast,
      rnd_zero]
    exact ⟨h1, h2⟩
  · -- below zero and not whole: the whole number below is the one before that above
    have h7 : val (fraction x) + val 1.0 = Int.fract (val x) := by
      have h8 : ⌈val x⌉ = ⌊val x⌋ + 1 := (Int.ceil_eq_floor_add_one_iff_notMem (val x)).2 ?_
      · rw [h2, h8, finite_literal_one.2, Int.fract]
        push_cast
        ring
      · rintro ⟨n, h9⟩
        rw [← h9, Int.ceil_intCast] at h6
        exact lt_irrefl _ h6
    rw [if_pos (h3.2 (by rw [h2]; linarith))]
    have h8 := rounds_add h1 finite_literal_one.1
    rw [h7] at h8
    obtain ⟨h9, h10, -⟩ := h8.within (k := 0) (by rw [zpow_zero, abs_of_nonneg h4]; exact h5.le)
      (by norm_num) (by norm_num)
    exact ⟨h9, h10⟩

theorem turn_of_finite (hx : x.isFinite) : InUnit (Scalar.turn x) := by
  obtain ⟨h1, h2⟩ := finite_turn hx
  rw [InUnit, h2, ← zpow_zero (2 : ℚ)]
  refine ⟨h1, rnd_nonneg (Int.fract_nonneg _), rnd_le ?_ (by norm_num)⟩
  rw [zpow_zero]
  exact (Int.fract_lt_one _).le

theorem turn_cases (x : Float32) : Scalar.turn x = 0.0 / 0.0 ∨ InUnit (Scalar.turn x) := by
  by_cases hx : x.isFinite
  · exact .inr (turn_of_finite hx)
  · left
    rcases special_cases hx with rfl | rfl | rfl
    · decide +kernel
    · decide +kernel
    · decide +kernel

/-! ## the smaller and the larger of two floats -/

theorem Same.lt_eq (h1 : Same k x y) (h2 : Same k u v) : Scalar.lt x u = Scalar.lt y v := by
  rw [Bool.eq_iff_iff]
  have h3 : Scalar.lt x u = true ↔ val x < val u := lt_iff h1.left h2.left
  have h4 : Scalar.lt y v = true ↔ val y < val v := lt_iff h1.right h2.right
  rw [h3, h4, h1.val_eq, h2.val_eq]

theorem Same.least (h1 : Same k x y) (h2 : Same k u v) :
    Same k (Scalar.least x u) (Scalar.least y v) := by
  rw [Scalar.least, Scalar.least, isNaN_of_finite h2.left, isNaN_of_finite h2.right, h1.lt_eq h2]
  split
  · exact h1
  · exact h2

theorem Same.greatest (h1 : Same k x y) (h2 : Same k u v) :
    Same k (Scalar.greatest x u) (Scalar.greatest y v) := by
  rw [Scalar.greatest, Scalar.greatest, isNaN_of_finite h2.left, isNaN_of_finite h2.right,
    h2.lt_eq h1]
  split
  · exact h1
  · exact h2

theorem rounds_one_sub (hx : x.isFinite) : Rounds (1.0 - x) (1 - val x) := by
  have h1 := rounds_sub inUnit_one.1 hx
  rw [val_one] at h1
  exact h1

theorem inUnit_one_sub (hx : InUnit x) : InUnit (1.0 - x) :=
  inUnit_of_rounds (rounds_one_sub hx.1) (by linarith [hx.2.2]) (by linarith [hx.2.1])

theorem inUnit_greatest (hx : x.isFinite) (h1 : val x ≤ 1) : InUnit (Scalar.greatest x 0.0) := by
  have h2 : Scalar.lt 0.0 x = true ↔ 0 < val x := lt_iff rfl hx
  rw [Scalar.greatest, isNaN_of_finite rfl, Bool.false_or]
  split
  · next h => exact ⟨hx, (h2.1 h).le, h1⟩
  · exact inUnit_zero

end Binary32
end HueSaturation
