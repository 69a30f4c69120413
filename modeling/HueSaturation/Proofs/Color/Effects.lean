import HueSaturation.Proofs.Color.Same

/-!
# The matrices of effects

For amounts in the range of stored values the matrices of all effects are finite, and none of their
constants is the negative zero. The pivot of a contrast curve is far from zero where there is one,
so its offset is zero only at the slope one.

* `Elementary.Exp2Laws`   what is relied on of powers of two;
* `Library.SumsInTurn`    what is relied on of the product of matrices;
* `ColorMatrix.same_factor`   the factor of a setting in percent;
* `sound_saturation`, `sound_diagonal`, `sound_contrast`   the matrices of the three effects;
* `saturation_neutral`, `diagonal_neutral`, `contrast_neutral`   at rest they are the identity.
-/

namespace HueSaturation

open Binary32 (val Plain)

/-- The power of zero is one, and powers up to the 33rd are in the range that they have. -/
structure Elementary.Exp2Laws (fns : Elementary Float32) : Prop where
  zero : fns.exp2 0.0 = 1.0
  bound : ∀ x, Scalar.within (-33.0) 33.0 x → Scalar.within 0.0 8589934592.0 (fns.exp2 x)

/-- An entry of a product is the sum of its four products, added first to last. -/
def Library.SumsInTurn (fns : Library Float32) : Prop :=
  ∀ x y, (fns.times x y).transpose = x.transpose * y.transpose

theorem Library.SumsInTurn.mul_eq {fns : Library Float32} (h : fns.SumsInTurn)
    (a b : ColorMatrix Float32) : fns.mul a b = a * b :=
  h a.transpose b.transpose

/-- The float is a whole number of at most 12 bits, as stored values are. -/
def Binary32.Stored (x : Float32) : Prop :=
  x.isFinite ∧ ∃ n : ℤ, val x = n ∧ |n| ≤ 2048

namespace ColorMatrix

variable {x y : Float32} {fns : Elementary Float32}

theorem finite_literal_hundred : (100.0 : Float32).isFinite ∧ val 100.0 = 100 := by
  exact_mod_cast Binary32.finite_of_ofInt (n := 100) (by decide +kernel) (by norm_num)

theorem finite_literal_thirtythree : (33.0 : Float32).isFinite ∧ val 33.0 = 33 := by
  exact_mod_cast Binary32.finite_of_ofInt (n := 33) (by decide +kernel) (by norm_num)

theorem finite_literal_limit : (8589934592.0 : Float32).isFinite ∧ val 8589934592.0 = 2 ^ 33 := by
  have h1 : Binary32.unpacked (8589934592.0 : Float32) = .finite .positive 8388608 10 (by decide) :=
    rfl
  refine ⟨rfl, ?_⟩
  rw [val, h1, Binary32.worth]
  norm_num [Float.Model.UnpackedFloat.Sign.apply]

theorem same_factor (hx : Binary32.Stored x) :
    Binary32.Same 6 (x / 100.0 + 1.0) (x / 100.0 + 1.0) := by
  obtain ⟨h1, n, h2, h3⟩ := hx
  obtain ⟨h4, h5⟩ := finite_literal_hundred
  have hbound : |(n : ℚ) / 100| ≤ 2 ^ (5 : ℤ) := by
    have h6 : |(n : ℚ)| ≤ 2048 := by exact_mod_cast h3
    rw [abs_div, abs_of_pos (by norm_num : (0 : ℚ) < 100), div_le_iff₀ (by norm_num)]
    exact h6.trans (by norm_num)
  have hround := Binary32.rounds_div h1 h4 (by rw [h5]; norm_num)
  rw [h2, h5] at hround
  obtain ⟨h6, -, h7⟩ := hround.within hbound (by norm_num) (by norm_num)
  exact (Binary32.Same.refl h6 (by exact_mod_cast h7)).add (same_one.mono (by omega)) (by omega)

/-! ## saturation and luminosity -/

theorem inUnit_weights : Binary32.InUnit 0.2126 ∧ Binary32.InUnit 0.7152
    ∧ Binary32.InUnit 0.0722 :=
  ⟨Binary32.inUnit_of_within (by decide +kernel), Binary32.inUnit_of_within (by decide +kernel),
    Binary32.inUnit_of_within (by decide +kernel)⟩

theorem sound_saturation (hx : Binary32.Same 6 x x) : (saturation x).Sound 8 := by
  obtain ⟨hr, hg, hb⟩ := inUnit_weights
  have hzero := same_zero.mono (show 0 ≤ 8 by omega)
  have hrest : Binary32.Same 7 (1.0 - x) (1.0 - x) := (same_one.mono (by omega)).sub hx (by omega)
  have hwide := hx.mono (show 6 ≤ 7 by omega)
  have hr := hrest.mul hr.same (by omega)
  have hg := hrest.mul hg.same (by omega)
  have hb := hrest.mul hb.same (by omega)
  have hr' := hr.mono (show 7 ≤ 8 by omega)
  have hg' := hg.mono (show 7 ≤ 8 by omega)
  have hb' := hb.mono (show 7 ≤ 8 by omega)
  refine ⟨⟨⟨?_, hg', hb', hzero⟩, ⟨hr', ?_, hb', hzero⟩, ⟨hr', hg', ?_, hzero⟩,
    same_identity.one.mono (by omega)⟩, Binary32.plain_zero, Binary32.plain_zero,
    Binary32.plain_zero, same_identity.one⟩
  · exact hr.add hwide (by omega)
  · exact hg.add hwide (by omega)
  · exact hb.add hwide (by omega)

theorem sound_diagonal (hx : Binary32.Same 6 x x) : (diagonal x x x).Sound 6 := by
  have hzero := same_zero.mono (show 0 ≤ 6 by omega)
  exact ⟨⟨⟨hx, hzero, hzero, hzero⟩, ⟨hzero, hx, hzero, hzero⟩, ⟨hzero, hzero, hx, hzero⟩,
    same_identity.one.mono (by omega)⟩, Binary32.plain_zero, Binary32.plain_zero,
    Binary32.plain_zero, same_identity.one⟩

/-! ## contrast -/

theorem rounds_slope_amount {n : ℤ} (hx : x.isFinite) (h1 : val x = n) :
    Binary32.Rounds (x / 63.5) (n / (127 / 2)) := by
  have hdivisor : (63.5 : Float32).isFinite ∧ val 63.5 = 127 / 2 := by
    have h2 : Binary32.unpacked (63.5 : Float32) = .finite .positive 16646144 (-18) (by decide) :=
      rfl
    refine ⟨rfl, ?_⟩
    rw [val, h2, Binary32.worth]
    norm_num [Float.Model.UnpackedFloat.Sign.apply]
  have h2 := Binary32.rounds_div hx hdivisor.1 (by rw [hdivisor.2]; norm_num)
  rw [h1, hdivisor.2] at h2
  exact h2

theorem within_slope_amount (hx : Binary32.Stored x) : Scalar.within (-33.0) 33.0 (x / 63.5) := by
  obtain ⟨h1, n, h2, h3⟩ := hx
  obtain ⟨h4, h5⟩ := finite_literal_thirtythree
  obtain ⟨h6, h7⟩ := Binary32.finite_neg h4
  have hround := rounds_slope_amount h1 h2
  have hbound : |(n : ℚ) / (127 / 2)| ≤ 65 / 2 := by
    have h8 : |(n : ℚ)| ≤ 2048 := by exact_mod_cast h3
    rw [abs_div, abs_of_pos (by norm_num : (0 : ℚ) < 127 / 2), div_le_iff₀ (by norm_num)]
    exact h8.trans (by norm_num)
  have hsmall : |(n : ℚ) / (127 / 2)| < 2 ^ (6 : ℤ) := lt_of_le_of_lt hbound (by norm_num)
  obtain ⟨h8, h9, -⟩ := hround.within hsmall.le (by norm_num) (by norm_num)
  have hnear := Binary32.abs_rnd_sub_le hsmall (by norm_num)
  rw [← h9, abs_le] at hnear
  rw [abs_le] at hbound
  norm_num at hnear
  rw [Scalar.within, Bool.and_eq_true]
  constructor
  · refine (Binary32.le_iff h6 h8).2 ?_
    rw [h7, h5]
    linarith
  · refine (Binary32.le_iff h8 h4).2 ?_
    rw [h5]
    linarith

/-- Slopes other than one are that far from one that the offset does not underflow. -/
theorem le_abs_one_sub (hx : x.isFinite) (h1 : val x ≠ 1) : 2 ^ (-24 : ℤ) ≤ |1 - val x| := by
  rcases lt_or_ge |val x| (2 ^ (-1 : ℤ)) with h2 | h2
  · rw [abs_lt] at h2
    norm_num at h2
    rw [abs_of_pos (by linarith)]
    norm_num
    linarith
  · obtain ⟨n, h3⟩ := Binary32.exists_multiple_of_le hx h2
    have h4 : 1 - val x = ((2 ^ 24 - n : ℤ) : ℚ) * 2 ^ (-24 : ℤ) := by
      rw [h3]
      push_cast
      norm_num
      ring
    have h5 : (2 ^ 24 - n : ℤ) ≠ 0 := by
      intro h
      rw [h, Int.cast_zero, zero_mul] at h4
      exact h1 (by linarith)
    have h6 : (1 : ℚ) ≤ |((2 ^ 24 - n : ℤ) : ℚ)| := by exact_mod_cast Int.one_le_abs h5
    rw [h4, abs_mul, abs_of_pos (by positivity : (0 : ℚ) < 2 ^ (-24 : ℤ))]
    exact le_mul_of_one_le_left (by positivity) h6

theorem le_abs_offset {d : ℚ} (h1 : 2 ^ (-14 : ℤ) ≤ val x) (h2 : 2 ^ (-24 : ℤ) ≤ |d|) :
    2 ^ (-38 : ℤ) ≤ |val x * d| := by
  have hpos : 0 < val x := lt_of_lt_of_le (by positivity) h1
  rw [abs_mul, abs_of_pos hpos]
  calc (2 : ℚ) ^ (-38 : ℤ) = 2 ^ (-14 : ℤ) * 2 ^ (-24 : ℤ) := by norm_num
    _ ≤ val x * |d| := by gcongr

theorem plain_offset (hx : x.isFinite) (h1 : 2 ^ (-14 : ℤ) ≤ val x) (h2 : val x ≤ 2 ^ 6)
    (hy : Binary32.Same 33 y y) : Plain (x * (1.0 - y)) := by
  have hpos : 0 < val x := lt_of_lt_of_le (by positivity) h1
  have hrest := (same_one.mono (show 0 ≤ 33 by omega)).sub hy (by omega)
  have hfactor : Binary32.Same 6 x x := .refl hx (by rw [abs_of_pos hpos]; exact h2)
  have hoffset := hfactor.mul hrest (by omega)
  by_cases h3 : val y = 1
  · have h4 : y = 1.0 :=
      Binary32.eq_of_val hy.left same_one.left (h3.trans Binary32.val_one.symm)
        (by rw [h3]; norm_num)
    have h5 : (1.0 : Float32) - 1.0 = 0.0 := by decide +kernel
    rw [h4, h5, Binary32.mul_zero_of_pos hx hpos]
    exact Binary32.plain_zero
  · refine Binary32.plain_of_val hoffset.left fun h => ?_
    have h4 : 2 ^ (-24 : ℤ) ≤ |val (1.0 - y)| := by
      rw [(same_one.mono (Nat.zero_le 33)).val_sub hy (by omega), Binary32.val_one]
      exact Binary32.le_abs_rnd (le_abs_one_sub hy.left h3) (by norm_num)
    have h5 := Binary32.le_abs_rnd (le_abs_offset h1 h4) (by norm_num)
    rw [← hfactor.val_mul hrest (by omega), h, abs_zero] at h5
    exact absurd h5 (by norm_num)

theorem same_pivot (hy : Binary32.Stored y) :
    Binary32.Same 6 (contrastPivot y) (contrastPivot y) :=
  Binary32.inUnit_half.same.mul (same_factor hy) (by omega)

theorem le_pivot (hy : Binary32.Stored y) (h1 : Scalar.le 0.0001 (contrastPivot y)) :
    2 ^ (-14 : ℤ) ≤ val (contrastPivot y) := by
  have hleast : Binary32.unpacked (0.0001 : Float32)
      = .finite .positive 13743895 (-37) (by decide) := rfl
  have h2 := (Binary32.le_iff rfl (same_pivot hy).left).1 h1
  rw [val, hleast, Binary32.worth] at h2
  norm_num [Float.Model.UnpackedFloat.Sign.apply] at h2
  norm_num
  linarith

theorem sound_contrast (hfns : fns.Exp2Laws) (hx : Binary32.Stored x) (hy : Binary32.Stored y) :
    (contrast fns x y).Sound 40 := by
  obtain ⟨hlimit, hlimit'⟩ := finite_literal_limit
  obtain ⟨h1, h2, h3⟩ :=
    Binary32.finite_of_within rfl hlimit (hfns.bound _ (within_slope_amount hx))
  rw [Binary32.val_zero] at h2
  rw [hlimit'] at h3
  have hslope : Binary32.Same 33 (contrastSlope fns x) (contrastSlope fns x) :=
    .refl h1 (by rw [contrastSlope, abs_of_nonneg h2]; exact h3)
  have hpivot := same_pivot hy
  have hoffset := hpivot.mul ((same_one.mono (Nat.zero_le 33)).sub hslope (by omega)) (by omega)
  have hzero := same_zero.mono (Nat.zero_le 40)
  have hwide := hslope.mono (show 33 ≤ 40 by omega)
  unfold contrast
  simp only []
  split
  · next h =>
    rw [Bool.and_eq_true] at h
    have hplain := plain_offset hpivot.left (le_pivot hy h.1)
      ((le_abs_self _).trans hpivot.le) hslope
    exact ⟨⟨⟨hwide, hzero, hzero, hoffset⟩, ⟨hzero, hwide, hzero, hoffset⟩,
      ⟨hzero, hzero, hwide, hoffset⟩, same_identity.one.mono (Nat.zero_le 40)⟩, hplain, hplain,
      hplain, same_identity.one⟩
  · exact ⟨same_identity.mono (Nat.zero_le 40), Binary32.plain_zero, Binary32.plain_zero,
      Binary32.plain_zero, same_identity.one⟩

/-! ## effects at rest -/

theorem saturation_neutral : saturation (0.0 / 100.0 + 1.0 : Float32) = identity := by
  decide +kernel

theorem diagonal_neutral :
    diagonal (0.0 / 100.0 + 1.0 : Float32) (0.0 / 100.0 + 1.0) (0.0 / 100.0 + 1.0) = identity := by
  decide +kernel

theorem contrast_neutral (hfns : fns.Exp2Laws) (hy : Binary32.Stored y) :
    contrast fns 0.0 y = identity := by
  have hslope : contrastSlope fns 0.0 = 1.0 := by
    have h1 : (0.0 / 63.5 : Float32) = 0.0 := by decide +kernel
    rw [contrastSlope, h1, hfns.zero]
  have hrest : (1.0 : Float32) - 1.0 = 0.0 := by decide +kernel
  unfold contrast
  simp only [hslope, hrest]
  split
  · next h =>
    rw [Bool.and_eq_true] at h
    have hpos : 0 < val (contrastPivot y) := lt_of_lt_of_le (by positivity) (le_pivot hy h.1)
    rw [Binary32.mul_zero_of_pos (same_pivot hy).left hpos]
    rfl
  · rfl

end ColorMatrix
end HueSaturation
