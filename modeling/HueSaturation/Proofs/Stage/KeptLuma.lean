import HueSaturation.Proofs.Color.Gamut
import HueSaturation.Stage.HueRotation

/-!
# Hue rotation in exact arithmetic

A rotation keeps the luma of a pixel, and what it makes of a pixel in the unit cube is in the unit
cube before it is cut down to it. None of this depends on the functions: whatever they take for the
angle, the chroma that comes out is scaled until it fits.

* `HueRotation.turned`          the color after the rotation, not yet fitted;
* `HueRotation.rotated_inCube`, `luma_rotated`   the fitted pixel;
* `HueRotation.applyPixel_of_colored`   the stage does not cut anything off;
* `rotation_keeps_luma_in_gamut`   the stage on any pixel.
-/

namespace HueSaturation

namespace HueRotation

variable {s : HueRotation ℝ} {fns : Elementary ℝ} {c : Polar ℝ} {p : Rgb ℝ}

/-- A color with its hue rotated, not fitted into the unit cube. -/
noncomputable def turned (s : HueRotation ℝ) (fns : Elementary ℝ) (c : Polar ℝ) : LumaChroma ℝ :=
  (c.rotate s.turns).toLumaChroma fns

theorem rotated_eq (s : HueRotation ℝ) (fns : Elementary ℝ) (c : Polar ℝ) :
    s.rotated fns c = (s.turned fns c).fitted.toRgb :=
  rfl

theorem luma_rotated (s : HueRotation ℝ) (fns : Elementary ℝ) (c : Polar ℝ) :
    (s.rotated fns c).luma = c.luma := by
  rw [rotated_eq, LumaChroma.luma_toRgb]
  rfl

theorem rotated_inCube (s : HueRotation ℝ) (fns : Elementary ℝ) (hc : c.luma ∈ Set.Icc 0 1) :
    (s.rotated fns c).InCube :=
  LumaChroma.fitted_inCube hc

/-- The chroma of the fitted pixel is that of the rotated color, scaled. -/
theorem toLumaChroma_rotated (s : HueRotation ℝ) (fns : Elementary ℝ) (c : Polar ℝ) :
    (s.rotated fns c).toLumaChroma
      = (s.turned fns c).scaleChroma (s.turned fns c).gamutScale := by
  rw [rotated_eq, LumaChroma.toLumaChroma_toRgb]
  rfl

theorem applyPixel_of_kept (h : s.isIdentity = true ∨ isGray (p.toPolar fns) = true) :
    s.applyPixel fns p = p := by
  rw [applyPixel]
  split
  · rfl
  · next hidentity => exact if_pos (h.resolve_left hidentity)

/-- Nothing is cut off where a pixel is rotated. -/
theorem applyPixel_of_colored (hp : p.InCube) (h1 : s.isIdentity = false)
    (h2 : isGray (p.toPolar fns) = false) :
    s.applyPixel fns p = s.rotated fns (p.toPolar fns) := by
  have hcube : (s.rotated fns (p.toPolar fns)).InCube := s.rotated_inCube fns hp.luma_mem
  simp only [applyPixel, h1, h2, Bool.false_eq_true, if_false]
  exact hcube.unit

end HueRotation

/-- **Hue rotation keeps the luma and stays in gamut by itself.** For a pixel in the unit cube, any
rotation and any functions, the fitted pixel is in the unit cube, so cutting it down changes
nothing, and the luma is that of the pixel. Where the pixel is not left alone its chroma is that of
the rotated color by one factor, which is one if the rotated color is in the unit cube. -/
theorem rotation_keeps_luma_in_gamut (fns : Elementary ℝ) (s : HueRotation ℝ) (p : Rgb ℝ)
    (hp : p.InCube) :
    let c := p.toPolar fns
    let turned := (c.rotate s.turns).toLumaChroma fns
    (s.rotated fns c).InCube ∧ (s.rotated fns c).unit = s.rotated fns c ∧
    (s.applyPixel fns p).InCube ∧ (s.applyPixel fns p).luma = p.luma ∧
    (s.isIdentity = true ∨ HueRotation.isGray c = true → s.applyPixel fns p = p) ∧
    (s.isIdentity = false → HueRotation.isGray c = false →
      s.applyPixel fns p = s.rotated fns c ∧
      ∃ k ∈ Set.Icc (0 : ℝ) 1,
        (s.applyPixel fns p).toLumaChroma = ⟨p.luma, turned.cb * k, turned.cr * k⟩ ∧
        (turned.toRgb.InCube → k = 1)) := by
  intro c turned
  have hluma : c.luma ∈ Set.Icc 0 1 := hp.luma_mem
  have hcube := s.rotated_inCube fns hluma
  have hcolored (h1 : s.isIdentity = false) (h2 : HueRotation.isGray c = false) :
      s.applyPixel fns p = s.rotated fns c :=
    HueRotation.applyPixel_of_colored hp h1 h2
  have hcases : s.applyPixel fns p = p ∨ s.applyPixel fns p = s.rotated fns c := by
    cases h1 : s.isIdentity with
    | true => exact .inl (HueRotation.applyPixel_of_kept (.inl h1))
    | false =>
      cases h2 : HueRotation.isGray c with
      | true => exact .inl (HueRotation.applyPixel_of_kept (.inr h2))
      | false => exact .inr (hcolored h1 h2)
  refine ⟨hcube, hcube.unit, ?_, ?_, HueRotation.applyPixel_of_kept, fun h1 h2 => ?_⟩
  · rcases hcases with h | h
    · rw [h]
      exact hp
    · rw [h]
      exact hcube
  · rcases hcases with h | h
    · rw [h]
    · rw [h, s.luma_rotated]
      rfl
  · refine ⟨hcolored h1 h2, _, LumaChroma.gamutScale_mem (c := turned) hluma, ?_,
      (LumaChroma.gamutScale_eq_one_iff (c := turned) hluma).2⟩
    rw [hcolored h1 h2]
    exact s.toLumaChroma_rotated fns c

/-- Half a turn of full red, which is far out of gamut, leaves its luma. -/
theorem rotation_of_red :
    let fns : Elementary ℝ :=
      { exp2 := fun x => 2 ^ x, sin := Real.sin, cos := Real.cos
        atan2 := fun y x => Complex.arg ⟨x, y⟩, hypot := fun x y => √(x ^ 2 + y ^ 2)
        tau := 2 * Real.pi }
    let s : HueRotation ℝ := ⟨1 / 2⟩
    let red : Rgb ℝ := ⟨1, 0, 0⟩
    (s.applyPixel fns red).InCube ∧ (s.applyPixel fns red).luma = 0.2126 := by
  intro fns s red
  have hred : red.InCube := ⟨⟨zero_le_one, le_rfl⟩, ⟨le_rfl, zero_le_one⟩, le_rfl, zero_le_one⟩
  obtain ⟨-, -, hcube, hluma, -⟩ := rotation_keeps_luma_in_gamut fns s red hred
  refine ⟨hcube, hluma.trans ?_⟩
  simp only [red, Rgb.luma]
  norm_num

end HueSaturation
