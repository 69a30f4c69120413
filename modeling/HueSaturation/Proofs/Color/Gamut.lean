import HueSaturation.Proofs.Number.Exact
import HueSaturation.Color.LumaChroma

/-!
# The gamut in exact arithmetic

The luma weights add up to one, so a color keeps its luma on the way to pixels and back, and every
channel moves on a straight line as its chroma is scaled. A scale fits a channel if the channel
stays in `[0, 1]`; the scales that do are those up to a largest one, which is the one computed.

* `Rgb.InCube`                 all channels in `[0, 1]`;
* `LumaChroma.toLumaChroma_toRgb`   a color survives the way to a pixel and back;
* `LumaChroma.toRgb_scaleChroma`    every channel on its line from the luma;
* `LumaChroma.le_fitChannel_iff`    the scales that fit one more channel;
* `LumaChroma.le_gamutScale_iff`    the scales that fit all three;
* `LumaChroma.gamutScale_withDivision`   nothing is divided by zero;
* `gamut_scale_is_largest_fit`      the scale of any color.
-/

namespace HueSaturation

/-- All channels are in `[0, 1]`. -/
structure Rgb.InCube (p : Rgb ℝ) : Prop where
  r : p.r ∈ Set.Icc 0 1
  g : p.g ∈ Set.Icc 0 1
  b : p.b ∈ Set.Icc 0 1

namespace Rgb

variable {p : Rgb ℝ}

theorem InCube.unit (hp : p.InCube) : p.unit = p := by
  cases p
  simp only [Rgb.unit, Rgb.map, Exact.unit_of_mem hp.r, Exact.unit_of_mem hp.g,
    Exact.unit_of_mem hp.b]

/-- The luma of a color is an average of its channels. -/
theorem InCube.luma_mem (hp : p.InCube) : p.luma ∈ Set.Icc 0 1 := by
  obtain ⟨⟨hr, hr'⟩, ⟨hg, hg'⟩, hb, hb'⟩ := hp
  rw [luma]
  constructor <;> linarith

end Rgb

namespace LumaChroma

variable {c : LumaChroma ℝ} {y k x t : ℝ}

/-! ## luma and chroma of a pixel -/

theorem luma_toRgb (c : LumaChroma ℝ) : c.toRgb.luma = c.luma := by
  simp only [toRgb, Rgb.luma]
  ring

theorem toLumaChroma_toRgb (c : LumaChroma ℝ) : c.toRgb.toLumaChroma = c := by
  rw [Rgb.toLumaChroma, luma_toRgb]
  simp only [toRgb, add_sub_cancel_left]

/-- As the chroma is scaled every channel moves on a straight line from the luma. -/
theorem toRgb_scaleChroma (c : LumaChroma ℝ) (t : ℝ) : (c.scaleChroma t).toRgb
    = ⟨c.luma + t * (c.toRgb.r - c.luma), c.luma + t * (c.toRgb.g - c.luma),
      c.luma + t * (c.toRgb.b - c.luma)⟩ := by
  simp only [toRgb, scaleChroma, Rgb.mk.injEq]
  refine ⟨?_, ?_, ?_⟩ <;> ring

/-! ## one channel -/

theorem fitChannel_le (y k x : ℝ) : fitChannel y k x ≤ k := by
  rw [fitChannel]
  simp only [Exact.least_eq]
  split
  · exact min_le_left _ _
  split
  · exact min_le_left _ _
  · exact le_rfl

/-- The scales up to the one computed are those up to `k` that keep the channel in `[0, 1]`. -/
theorem le_fitChannel_iff (hy : y ∈ Set.Icc 0 1) (hk : k ≤ 1) (ht : 0 ≤ t) :
    t ≤ fitChannel y k x ↔ t ≤ k ∧ y + t * (x - y) ∈ Set.Icc 0 1 := by
  obtain ⟨hy0, hy1⟩ := hy
  have hhigh : (Scalar.lt 1.0 x && Scalar.lt 0.0 (x - y)) = true ↔ 1 < x := by
    rw [Bool.and_eq_true, Exact.lt_iff, Exact.lt_iff]
    norm_num
    exact fun h => lt_of_le_of_lt hy1 h
  have hlow : (Scalar.lt x 0.0 && Scalar.lt (x - y) 0.0) = true ↔ x < 0 := by
    rw [Bool.and_eq_true, Exact.lt_iff, Exact.lt_iff]
    norm_num
    exact fun h => lt_of_lt_of_le h hy0
  rw [fitChannel]
  simp only [hhigh, hlow, Exact.least_eq]
  split
  · next h =>
    have hd : 0 < x - y := by linarith
    have hmove := mul_nonneg ht hd.le
    rw [le_min_iff, le_div_iff₀ hd]
    refine and_congr_right fun _ => ⟨fun h1 => ⟨by linarith, by linarith⟩, fun h1 => ?_⟩
    linarith [h1.2]
  split
  · next h =>
    have hd : x - y < 0 := by linarith
    have hmove := mul_nonpos_of_nonneg_of_nonpos ht hd.le
    rw [le_min_iff, le_div_iff_of_neg hd]
    refine and_congr_right fun _ => ⟨fun h1 => ⟨by linarith, by linarith⟩, fun h1 => ?_⟩
    linarith [h1.1]
  · next h1 h0 =>
    -- between two numbers of `[0, 1]` nothing leaves it
    have hx : x ∈ Set.Icc (0 : ℝ) 1 := ⟨not_lt.1 h0, not_lt.1 h1⟩
    refine (and_iff_left_of_imp fun h => ?_).symm
    exact (convex_Icc 0 1).add_smul_sub_mem ⟨hy0, hy1⟩ hx ⟨ht, h.trans hk⟩

/-! ## the gamut -/

theorem scaleChroma_one (c : LumaChroma ℝ) : c.scaleChroma 1 = c := by
  simp only [scaleChroma, mul_one]

/-- The scale after all three channels, not cut down to `[0, 1]`. -/
noncomputable def runningScale (c : LumaChroma ℝ) : ℝ :=
  fitChannel c.luma (fitChannel c.luma (fitChannel c.luma 1.0 c.toRgb.r) c.toRgb.g) c.toRgb.b

theorem le_runningScale_iff (hc : c.luma ∈ Set.Icc 0 1) (ht : 0 ≤ t) :
    t ≤ c.runningScale ↔ t ≤ 1 ∧ (c.scaleChroma t).toRgb.InCube := by
  have hone : (1.0 : ℝ) ≤ 1 := by norm_num
  have hr := (fitChannel_le c.luma 1.0 c.toRgb.r).trans hone
  have hg := (fitChannel_le c.luma _ c.toRgb.g).trans hr
  have hlast : t ≤ 1.0 ↔ t ≤ 1 := by norm_num
  rw [runningScale, le_fitChannel_iff hc hg ht, le_fitChannel_iff hc hr ht,
    le_fitChannel_iff hc hone ht, hlast, toRgb_scaleChroma]
  constructor
  · rintro ⟨⟨⟨hle, hr⟩, hg⟩, hb⟩
    exact ⟨hle, hr, hg, hb⟩
  · rintro ⟨hle, hr, hg, hb⟩
    exact ⟨⟨⟨hle, hr⟩, hg⟩, hb⟩

theorem scaleChroma_zero_inCube (hc : c.luma ∈ Set.Icc 0 1) : (c.scaleChroma 0).toRgb.InCube := by
  rw [toRgb_scaleChroma]
  simp only [zero_mul, add_zero]
  exact ⟨hc, hc, hc⟩

theorem runningScale_mem (hc : c.luma ∈ Set.Icc 0 1) : c.runningScale ∈ Set.Icc 0 1 := by
  have hzero : 0 ≤ c.runningScale :=
    (le_runningScale_iff hc le_rfl).2 ⟨zero_le_one, scaleChroma_zero_inCube hc⟩
  exact ⟨hzero, ((le_runningScale_iff hc hzero).1 le_rfl).1⟩

theorem gamutScale_eq (hc : c.luma ∈ Set.Icc 0 1) : c.gamutScale = c.runningScale := by
  rw [gamutScale, if_pos (Exact.within_iff.2 (Exact.mem_unit_iff.2 hc))]
  exact Exact.clamp_of_mem (Exact.mem_unit_iff.2 (runningScale_mem hc))

/-- The scales that fit are those up to the one computed. -/
theorem le_gamutScale_iff (hc : c.luma ∈ Set.Icc 0 1) (ht : 0 ≤ t) :
    t ≤ c.gamutScale ↔ t ≤ 1 ∧ (c.scaleChroma t).toRgb.InCube := by
  rw [gamutScale_eq hc, le_runningScale_iff hc ht]

theorem gamutScale_mem (hc : c.luma ∈ Set.Icc 0 1) : c.gamutScale ∈ Set.Icc 0 1 :=
  gamutScale_eq hc ▸ runningScale_mem hc

theorem fitted_inCube (hc : c.luma ∈ Set.Icc 0 1) : c.fitted.toRgb.InCube :=
  ((le_gamutScale_iff hc (gamutScale_mem hc).1).1 le_rfl).2

theorem gamutScale_eq_one_iff (hc : c.luma ∈ Set.Icc 0 1) :
    c.gamutScale = 1 ↔ c.toRgb.InCube := by
  rw [← (gamutScale_mem hc).2.ge_iff_eq, le_gamutScale_iff hc zero_le_one, scaleChroma_one]
  exact and_iff_right le_rfl

theorem gamutScale_of_not_mem (hc : c.luma ∉ Set.Icc 0 1) : c.gamutScale = 0 := by
  rw [gamutScale, if_neg fun h => hc (Exact.mem_unit_iff.1 (Exact.within_iff.1 h))]
  norm_num

/-! ## divisions -/

section
variable {div : ℝ → ℝ → ℝ}

theorem toRgb_withDivision (hdiv : ∀ x d, d ≠ 0 → div x d = x / d) (c : LumaChroma ℝ) :
    @toRgb ℝ (Exact.withDivision div) c = c.toRgb := by
  have hgreen : (0.7152 : ℝ) ≠ 0 := by norm_num
  have hg := hdiv (c.luma - 0.2126 * (c.luma + c.cr) - 0.0722 * (c.luma + c.cb)) 0.7152 hgreen
  exact congrArg (fun g => Rgb.mk (c.luma + c.cr) g (c.luma + c.cb)) hg

/-- The sign of the difference is looked at before anything is divided by it. -/
theorem fitChannel_withDivision (hdiv : ∀ x d, d ≠ 0 → div x d = x / d) (y k x : ℝ) :
    @fitChannel ℝ (Exact.withDivision div) y k x = fitChannel y k x := by
  show (if Scalar.lt 1.0 x && Scalar.lt 0.0 (x - y) then Scalar.least k (div (1.0 - y) (x - y))
    else if Scalar.lt x 0.0 && Scalar.lt (x - y) 0.0 then Scalar.least k (div (-y) (x - y))
    else k) = _
  rw [fitChannel]
  split
  · next h =>
    rw [Bool.and_eq_true, Exact.lt_iff, Exact.lt_iff, Exact.zero_eq] at h
    simp only [hdiv _ _ h.2.ne']
  split
  · next h =>
    rw [Bool.and_eq_true, Exact.lt_iff, Exact.lt_iff, Exact.zero_eq] at h
    simp only [hdiv _ _ h.2.ne]
  · rfl

theorem gamutScale_withDivision (hdiv : ∀ x d, d ≠ 0 → div x d = x / d) (c : LumaChroma ℝ) :
    @gamutScale ℝ (Exact.withDivision div) c = c.gamutScale := by
  have hfit : @fitChannel ℝ (Exact.withDivision div) = fitChannel := by
    funext y k x
    exact fitChannel_withDivision hdiv y k x
  show (if Scalar.within 0.0 1.0 c.luma then
      let p := @toRgb ℝ (Exact.withDivision div) c
      let fit := @fitChannel ℝ (Exact.withDivision div) c.luma
      Scalar.clamp 0.0 1.0 (fit (fit (fit 1.0 p.r) p.g) p.b)
    else 0.0) = _
  rw [toRgb_withDivision hdiv, hfit]
  rfl

end
end LumaChroma

/-- **The gamut scale is the largest one that fits.** For a luma in `[0, 1]` and any chroma, it is
the greatest of the scales in `[0, 1]` at which every channel is in `[0, 1]`; for another luma it is
zero. It is one only for a color that is in the unit cube already. A division by zero is never
looked at: whatever one gave, the scale would be the same. -/
theorem gamut_scale_is_largest_fit (c : LumaChroma ℝ) :
    (c.luma ∈ Set.Icc 0 1 →
      IsGreatest {k | k ∈ Set.Icc 0 1 ∧ (c.scaleChroma k).toRgb.InCube} c.gamutScale) ∧
    (c.luma ∉ Set.Icc 0 1 → c.gamutScale = 0) ∧
    (c.gamutScale = 1 ↔ c.toRgb.InCube) ∧
    ∀ div : ℝ → ℝ → ℝ, (∀ x d, d ≠ 0 → div x d = x / d) →
      @LumaChroma.gamutScale ℝ (Exact.withDivision div) c = c.gamutScale := by
  refine ⟨fun hc => ⟨⟨LumaChroma.gamutScale_mem hc, LumaChroma.fitted_inCube hc⟩, ?_⟩,
    LumaChroma.gamutScale_of_not_mem, ?_, fun div hdiv => c.gamutScale_withDivision hdiv⟩
  · rintro k ⟨hk, hfits⟩
    exact (LumaChroma.le_gamutScale_iff hc hk.1).2 ⟨hk.2, hfits⟩
  · by_cases hc : c.luma ∈ Set.Icc 0 1
    · exact LumaChroma.gamutScale_eq_one_iff hc
    · -- the luma is an average of the channels, so they cannot all be in range
      have hout : ¬c.toRgb.InCube := fun h => hc (c.luma_toRgb ▸ h.luma_mem)
      rw [LumaChroma.gamutScale_of_not_mem hc]
      exact ⟨fun h => absurd h zero_ne_one, fun h => absurd h hout⟩

/-- A mid gray with one unit of blue fits at half of it, with any value for a division by zero. -/
theorem gamut_scale_of_blue :
    let c : LumaChroma ℝ := ⟨1 / 2, 1, 0⟩
    let div : ℝ → ℝ → ℝ := fun x d => if d = 0 then 7 else x / d
    c.gamutScale = 1 / 2 ∧ @LumaChroma.gamutScale ℝ (Exact.withDivision div) c = 1 / 2 ∧
    (⟨3 / 2, 1, 0⟩ : LumaChroma ℝ).gamutScale = 0 := by
  intro c div
  obtain ⟨hgreatest, -, -, hdivision⟩ := gamut_scale_is_largest_fit c
  have hdiv : ∀ x d, d ≠ 0 → div x d = x / d := fun x d hd => if_neg hd
  have hluma : c.luma ∈ Set.Icc (0 : ℝ) 1 := by norm_num [c]
  have hhalf : IsGreatest {k | k ∈ Set.Icc (0 : ℝ) 1 ∧ (c.scaleChroma k).toRgb.InCube} (1 / 2) := by
    constructor
    · refine ⟨by norm_num, ?_, ?_, ?_⟩ <;>
        norm_num [c, LumaChroma.scaleChroma, LumaChroma.toRgb]
    · rintro k ⟨-, -, -, hb⟩
      have hblue : 1 / 2 + 1 * k ≤ 1 := hb.2
      linarith
  have heq : c.gamutScale = 1 / 2 := (hgreatest hluma).unique hhalf
  refine ⟨heq, (hdivision div hdiv).trans heq, ?_⟩
  exact (gamut_scale_is_largest_fit ⟨3 / 2, 1, 0⟩).2.1 (by norm_num)
end HueSaturation
