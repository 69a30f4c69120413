import HueSaturation.Png.Picture
import HueSaturation.Proofs.Color.Same
import HueSaturation.Proofs.Number.Between

/-!
# Samples there and back

A sample becomes a float and is read back as the nearest sample. Both steps round, by less than
half a sample together: every sample comes back. And every float becomes a sample, so what is read
back of it is settled after one time.

* `Depth.val_normalize`      the number of a sample;
* `Depth.quantize_normalize`   a sample comes back;
* `Depth.quantize_le`        every float becomes a sample of the depth;
* `Depth.quantize_of_same`   floats of one value become one sample;
* `Depth.snap`               the number of the sample nearest to a number.
-/

namespace HueSaturation

open Binary32

namespace Depth

variable {d : Depth} {v : UInt16} {x : Float32}

theorem toNat_max (d : Depth) : 0 < d.max.toNat ∧ d.max.toNat < 2 ^ 16 := by
  cases d <;> decide

theorem ratio_mem (hv : v ≤ d.max) :
    (0 : ℚ) ≤ v.toNat / d.max.toNat ∧ (v.toNat : ℚ) / d.max.toNat ≤ 1 := by
  have h1 : (0 : ℚ) < d.max.toNat := by exact_mod_cast (toNat_max d).1
  have h2 : (v.toNat : ℚ) ≤ d.max.toNat := by exact_mod_cast UInt16.le_iff_toNat_le.1 hv
  exact ⟨by positivity, (div_le_one h1).2 h2⟩

theorem val_normalize (hv : v ≤ d.max) :
    InUnit (d.normalize v) ∧ val (d.normalize v) = rnd (v.toNat / d.max.toNat) := by
  obtain ⟨h1, h2⟩ := finite_toFloat32_short v
  obtain ⟨h3, h4⟩ := finite_toFloat32_short d.max
  obtain ⟨h5, h6⟩ := ratio_mem hv
  have hmax : val d.max.toFloat32 ≠ 0 := by
    rw [h4]
    exact_mod_cast (toNat_max d).1.ne'
  have hround : Rounds (d.normalize v) (v.toNat / d.max.toNat) := by
    rw [← h2, ← h4]
    exact rounds_div h1 h3 hmax
  obtain ⟨h7, h8, h9⟩ := hround.within (k := 0) (by rw [abs_of_nonneg h5, zpow_zero]; exact h6)
    (by norm_num) (by norm_num)
  refine ⟨⟨h7, ?_, ?_⟩, h8⟩
  · rw [h8]
    exact rnd_nonneg h5
  · rw [zpow_zero] at h9
    exact (abs_le.1 h9).2

/-- Multiplied out again, a sample is less than half a sample off. -/
theorem abs_scaled_sub_lt (hv : v ≤ d.max) :
    |rnd (rnd (v.toNat / d.max.toNat) * d.max.toNat) - v.toNat| < 1 / 2 := by
  obtain ⟨h1, h2⟩ := ratio_mem hv
  obtain ⟨h3, h4⟩ := toNat_max d
  have hpos : (0 : ℚ) < d.max.toNat := by exact_mod_cast h3
  have hmax : (d.max.toNat : ℚ) < 2 ^ 16 := by exact_mod_cast h4
  obtain ⟨r, hr⟩ : ∃ r, r = rnd (v.toNat / d.max.toNat) := ⟨_, rfl⟩
  have hratio : |r - v.toNat / d.max.toNat| ≤ 2 ^ (1 - 25 : ℤ) := by
    rw [hr]
    refine abs_rnd_sub_le ?_ (by norm_num)
    rw [abs_of_nonneg h1]
    norm_num
    linarith
  have hfirst : |r * d.max.toNat - v.toNat| ≤ 1 / 256 := by
    have h5 : r * d.max.toNat - v.toNat = (r - v.toNat / d.max.toNat) * d.max.toNat := by
      rw [sub_mul, div_mul_cancel₀ _ hpos.ne']
    rw [h5, abs_mul, abs_of_pos hpos]
    calc _ ≤ (2 : ℚ) ^ (1 - 25 : ℤ) * 2 ^ 16 := by gcongr
      _ = 1 / 256 := by norm_num
  have hsecond : |rnd (r * d.max.toNat) - r * d.max.toNat| ≤ 2 ^ (17 - 25 : ℤ) := by
    refine abs_rnd_sub_le ?_ (by norm_num)
    have h5 : (v.toNat : ℚ) < 2 ^ 16 := by exact_mod_cast v.toNat_lt
    have h6 : (0 : ℚ) ≤ v.toNat := by positivity
    rw [abs_le] at hfirst
    rw [abs_lt]
    norm_num
    constructor <;> linarith
  rw [← hr, ← sub_add_sub_cancel _ (r * d.max.toNat)]
  calc _ ≤ _ := abs_add_le _ _
    _ ≤ 2 ^ (17 - 25 : ℤ) + 1 / 256 := add_le_add hsecond hfirst
    _ < 1 / 2 := by norm_num

theorem quantize_normalize (hv : v ≤ d.max) : d.quantize (d.normalize v) = v := by
  obtain ⟨x, hx⟩ : ∃ x, x = d.normalize v := ⟨_, rfl⟩
  obtain ⟨hunit, h3⟩ := val_normalize hv
  obtain ⟨h4, h5⟩ := finite_toFloat32_short d.max
  rw [← hx] at hunit h3 ⊢
  have hclamp : Scalar.clamp 0.0 1.0 x = x := by
    rw [← unit_of_finite hunit.1, unit_of_inUnit hunit]
  obtain ⟨h6, h7⟩ : (x * d.max.toFloat32).isFinite
      ∧ val (x * d.max.toFloat32) = rnd (rnd (v.toNat / d.max.toNat) * d.max.toNat) := by
    have hround := rounds_mul hunit.1 h4
    have hbound : |val x * val d.max.toFloat32| ≤ 2 ^ (16 : ℤ) := by
      have h8 : (d.max.toNat : ℚ) ≤ 2 ^ 16 := by exact_mod_cast (toNat_max d).2.le
      rw [h5, abs_mul, abs_of_nonneg hunit.2.1, Nat.abs_cast]
      calc val x * d.max.toNat ≤ 1 * 2 ^ 16 := by gcongr; exact hunit.2.2
        _ = 2 ^ (16 : ℤ) := by norm_num
    obtain ⟨h8, h9, -⟩ := hround.within hbound (by norm_num) (by norm_num)
    exact ⟨h8, by rw [h9, h5, h3]⟩
  obtain ⟨h8, h9⟩ := finite_round h6
  have haway : away (rnd (rnd (v.toNat / d.max.toNat) * d.max.toNat)) = v.toNat :=
    away_eq (by push_cast; exact abs_scaled_sub_lt hv)
  rw [h7, haway] at h9
  have h10 := toNat_toUInt16 h8 (by rw [h9]; rfl) v.toNat_lt
  rw [quantize, hclamp]
  exact UInt16.toNat_inj.1 h10

/-- Every float becomes a sample of the depth, "not a number" and the infinities included. -/
theorem quantize_le (d : Depth) (x : Float32) : d.quantize x ≤ d.max := by
  by_cases hx : x.isFinite
  · obtain ⟨h1, h2⟩ := finite_toFloat32_short d.max
    obtain ⟨h3, h4, h5⟩ := inUnit_unit x
    have hpos : (0 : ℚ) ≤ d.max.toNat := by positivity
    obtain ⟨h6, h7, h8⟩ := (rounds_mul h3 h1).between inUnit_zero.1 h1
      (by rw [val_zero, h2]; positivity) (by rw [h2]; exact mul_le_of_le_one_left hpos h5)
    obtain ⟨h9, h10⟩ := finite_round h6
    rw [val_zero] at h7
    rw [h2] at h8
    have hlow := away_nonneg h7
    have hhigh : away (val (Scalar.unit x * d.max.toFloat32)) ≤ d.max.toNat := by
      rw [← away_intCast d.max.toNat]
      exact away_mono (by exact_mod_cast h8)
    obtain ⟨n, hn⟩ := Int.eq_ofNat_of_zero_le hlow
    rw [hn] at h10 hhigh
    have hle : n ≤ d.max.toNat := by exact_mod_cast hhigh
    rw [quantize, ← unit_of_finite hx, UInt16.le_iff_toNat_le,
      toNat_toUInt16 h9 (by rw [h10]; rfl) (hle.trans_lt d.max.toNat_lt)]
    exact hle
  · rcases special_cases hx with rfl | rfl | rfl <;> cases d <;> decide +kernel

/-- Floats of one value become one sample, zeros of either sign included. -/
theorem quantize_of_same {k : ℕ} {y : Float32} (h : Same k x y) : d.quantize x = d.quantize y := by
  by_cases hzero : val x = 0
  · rcases zero_cases h.left hzero with rfl | rfl <;>
      rcases zero_cases h.right (h.val_eq ▸ hzero) with rfl | rfl <;> cases d <;> decide +kernel
  · rw [eq_of_val h.left h.right h.val_eq hzero]

/-- The number of the sample nearest to `x`. -/
def snap (d : Depth) (x : Float32) : Float32 :=
  d.normalize (d.quantize x)

theorem quantize_snap (d : Depth) (x : Float32) : d.quantize (d.snap x) = d.quantize x :=
  quantize_normalize (d.quantize_le x)

end Depth
end HueSaturation
