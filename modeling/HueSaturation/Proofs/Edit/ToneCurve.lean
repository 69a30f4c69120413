import HueSaturation.Proofs.Color.Curves
import HueSaturation.Edit.Pipeline

/-!
# The curve of an edit

The matrix of a pipeline is one curve for all channels: saturation moves a channel away from the
luma, luminosity scales it, and contrast stretches it around mid gray as luminosity leaves it. What
is left out because it is at rest would have changed nothing.

* `Settings.tone`              luminosity and contrast of one channel;
* `Pipeline.band_apply`        the matrix of a pipeline as a curve;
* `Pipeline.luma_band_apply`   the luma of a pixel on its own curve;
* `matrix_is_the_curve`        the formula, and what follows from it.
-/

namespace HueSaturation

variable {fns : Elementary ℝ} {s : Settings}

namespace Settings

theorem value_of_toInt {k : Control} {n : ℤ} (h : (s.values.get k).toInt = n) :
    (s.value k : ℝ) = n := by
  rw [← h]
  rfl

/-- The factor of a control in percent: one at rest. -/
noncomputable def factor (s : Settings) (k : Control) : ℝ :=
  s.value k / 100 + 1

/-- What luminosity and contrast make of a channel. -/
noncomputable def tone (fns : Elementary ℝ) (s : Settings) (x : ℝ) : ℝ :=
  let lit := s.factor .luminosity
  let pivot := 0.5 * lit
  if pivot < 0.0001 then lit * x
  else (lit * x - pivot) * ColorMatrix.contrastSlope fns (s.value .contrast) + pivot

theorem factor_eq (s : Settings) (k : Control) : (s.value k : ℝ) / 100.0 + 1.0 = s.factor k :=
  Exact.percent_eq _

noncomputable def isActive (s : Settings) (k : Control) : Bool :=
  (s.value k : ℝ) != 0.0

theorem value_of_not_isActive {k : Control} (h : s.isActive k = false) : (s.value k : ℝ) = 0 :=
  (Exact.bne_eq_false_iff.1 h).trans Exact.zero_eq

theorem factor_of_not_isActive {k : Control} (h : s.isActive k = false) : s.factor k = 1 := by
  rw [factor, value_of_not_isActive h, zero_div, zero_add]

theorem tone_of_le (h : 0.0001 ≤ 0.5 * s.factor .luminosity) (x : ℝ) : s.tone fns x
    = (s.factor .luminosity * x - 0.5 * s.factor .luminosity)
      * ColorMatrix.contrastSlope fns (s.value .contrast) + 0.5 * s.factor .luminosity :=
  if_neg h.not_gt

theorem tone_of_lt (h : 0.5 * s.factor .luminosity < 0.0001) (x : ℝ) :
    s.tone fns x = s.factor .luminosity * x :=
  if_pos h

theorem exists_tone_eq (fns : Elementary ℝ) (s : Settings) :
    ∃ k d : ℝ, s.tone fns = fun x => k * x + d := by
  rcases lt_or_ge (0.5 * s.factor .luminosity) 0.0001 with h | h
  · refine ⟨s.factor .luminosity, 0, funext fun x => ?_⟩
    rw [tone_of_lt h, add_zero]
  · let slope := ColorMatrix.contrastSlope fns (s.value .contrast)
    refine ⟨s.factor .luminosity * slope, 0.5 * s.factor .luminosity * (1 - slope),
      funext fun x => ?_⟩
    rw [tone_of_le h]
    ring

/-- Mid gray goes to the pivot, whether or not there is a contrast curve around it. -/
theorem tone_half (fns : Elementary ℝ) (s : Settings) :
    s.tone fns 0.5 = 0.5 * s.factor .luminosity := by
  rcases lt_or_ge (0.5 * s.factor .luminosity) 0.0001 with h | h
  · rw [tone_of_lt h, mul_comm]
  · rw [tone_of_le h]
    ring

end Settings

namespace Pipeline

theorem apply_tone (fns : Elementary ℝ) (s : Settings) (p : Rgb ℝ) :
    (ColorMatrix.contrast fns (s.value .contrast) (s.value .luminosity)).apply
      (p.map fun x => s.factor .luminosity * x) = p.map (s.tone fns) := by
  have hpivot : ColorMatrix.contrastPivot (s.value .luminosity) = 0.5 * s.factor .luminosity :=
    ColorMatrix.contrastPivot_eq _
  rcases lt_or_ge (0.5 * s.factor .luminosity) 0.0001 with h | h
  · rw [ColorMatrix.apply_contrast_of_lt (hpivot ▸ h)]
    simp only [Rgb.map, Settings.tone_of_lt h]
  · rw [ColorMatrix.apply_contrast_of_le (hpivot ▸ h), hpivot]
    simp only [Rgb.map, Settings.tone_of_le h]

theorem effects_eq (s : Settings) : effects s
    = (if s.isActive .saturation then [Effect.saturate (s.factor .saturation)] else [])
      ++ (if s.isActive .luminosity then [Effect.scale (s.factor .luminosity)
          (s.factor .luminosity) (s.factor .luminosity)] else [])
      ++ (if s.isActive .contrast then [Effect.contrast (s.value .contrast)
          (s.value .luminosity)] else []) := by
  simp only [effects, Settings.factor_eq]
  rfl

section
variable {fns : Library ℝ} (hproduct : ColorMatrix.ColumnProduct fns.times)
include hproduct

/-- The matrix of a pipeline is the curve of all effects, at rest or not. -/
theorem band_apply (hfns : ColorMatrix.contrastSlope (fns : Elementary ℝ) 0 = 1) (s : Settings)
    (p : Rgb ℝ) :
    (ofSettings fns s).band.apply p
      = p.map fun x => s.tone fns (along p.luma (s.factor .saturation) x) := by
  let lit := s.factor .luminosity
  have hsaturation (h : s.isActive .saturation = false) (q : Rgb ℝ) :
      ((Effect.saturate (s.factor .saturation)).matrix fns).apply q = q := by
    rw [Settings.factor_of_not_isActive h]
    exact ColorMatrix.saturation_at_rest q
  have hluminosity (h : s.isActive .luminosity = false) (q : Rgb ℝ) :
      ((Effect.scale lit lit lit).matrix fns).apply q = q := by
    have hlit : lit = 1 := Settings.factor_of_not_isActive h
    rw [hlit]
    exact ColorMatrix.diagonal_at_rest q
  have hcontrast (h : s.isActive .contrast = false) (q : Rgb ℝ) :
      ((Effect.contrast (s.value .contrast) (s.value .luminosity)).matrix fns).apply q = q := by
    rw [Settings.value_of_not_isActive h]
    exact ColorMatrix.contrast_at_rest hfns q
  calc (ofSettings fns s).band.apply p
      = Effect.inTurn fns (effects s) p := by
        show (Effect.compose fns .identity (effects s)).apply p = _
        rw [Effect.apply_compose hproduct ColorMatrix.affine_identity, ColorMatrix.identity_apply]
    _ = (ColorMatrix.contrast fns (s.value .contrast) (s.value .luminosity)).apply
          ((ColorMatrix.diagonal lit lit lit).apply
            ((ColorMatrix.saturation (s.factor .saturation)).apply p)) := by
        rw [effects_eq, Effect.inTurn_append, Effect.inTurn_append, Effect.inTurn_if hcontrast,
          Effect.inTurn_if hluminosity, Effect.inTurn_if hsaturation]
        rfl
    _ = p.map fun x => s.tone fns (along p.luma (s.factor .saturation) x) := by
        rw [ColorMatrix.apply_saturation, ColorMatrix.apply_diagonal, apply_tone]
        rfl

/-- The luma of a pixel is on the curve of luminosity and contrast alone. -/
theorem luma_band_apply (hfns : ColorMatrix.contrastSlope (fns : Elementary ℝ) 0 = 1)
    (s : Settings) (p : Rgb ℝ) :
    ((ofSettings fns s).band.apply p).luma = s.tone fns p.luma := by
  obtain ⟨k, d, htone⟩ := s.exists_tone_eq fns
  rw [band_apply hproduct hfns]
  show ((p.map (along p.luma (s.factor .saturation))).map (s.tone fns)).luma = _
  rw [htone, Rgb.luma_map, luma_map_along]

theorem band_apply_gray (hfns : ColorMatrix.contrastSlope (fns : Elementary ℝ) 0 = 1)
    (s : Settings) (y : ℝ) :
    (ofSettings fns s).band.apply (.gray y) = .gray (s.tone fns y) := by
  rw [band_apply hproduct hfns, Rgb.luma_gray, Rgb.map_gray, along_self]

end
end Pipeline

/-- **The composed matrix is the specified curve.** A channel is moved away from the luma by the
saturation, scaled by the luminosity, and stretched by the contrast around mid gray as the
luminosity leaves it; without a pivot there is no contrast. So the luma does not depend on the
saturation, grays stay gray, without saturation everything is gray, and mid gray goes to the pivot.
-/
theorem matrix_is_the_curve (fns : Library ℝ) (hproduct : ColorMatrix.ColumnProduct fns.times)
    (hfns : ColorMatrix.contrastSlope (fns : Elementary ℝ) 0 = 1) (s : Settings) :
    let sat : ℝ := s.value .saturation / 100 + 1
    let lit : ℝ := s.value .luminosity / 100 + 1
    let pivot : ℝ := 0.5 * lit
    let slope := ColorMatrix.contrastSlope fns (s.value .contrast)
    let band := (Pipeline.ofSettings fns s).band
    (0.0001 ≤ pivot → ∀ p, band.apply p
      = p.map fun x => (lit * (p.luma + sat * (x - p.luma)) - pivot) * slope + pivot) ∧
    (pivot < 0.0001 → ∀ p, band.apply p = p.map fun x => lit * (p.luma + sat * (x - p.luma))) ∧
    (∀ s' : Settings, s'.values.get .luminosity = s.values.get .luminosity →
      s'.values.get .contrast = s.values.get .contrast →
      ∀ p, ((Pipeline.ofSettings fns s').band.apply p).luma = (band.apply p).luma) ∧
    (∀ y, ∃ z, band.apply (.gray y) = .gray z) ∧
    (s.values.get .saturation = -100 → ∀ p, ∃ z, band.apply p = .gray z) ∧
    band.apply (.gray 0.5) = .gray pivot := by
  intro sat lit pivot slope band
  refine ⟨fun h p => ?_, fun h p => ?_, fun s' hlum hcon p => ?_, fun y => ?_, fun h p => ?_, ?_⟩
  · rw [Pipeline.band_apply hproduct hfns]
    simp only [Settings.tone_of_le h]
    rfl
  · rw [Pipeline.band_apply hproduct hfns]
    simp only [Settings.tone_of_lt h]
    rfl
  · -- luminosity and contrast are all that the tone reads
    have htone : s'.tone fns = s.tone fns := by
      unfold Settings.tone Settings.factor Settings.value
      rw [hlum, hcon]
    rw [Pipeline.luma_band_apply hproduct hfns, Pipeline.luma_band_apply hproduct hfns, htone]
  · exact ⟨_, Pipeline.band_apply_gray hproduct hfns s y⟩
  · have hsat : s.factor .saturation = 0 := by
      rw [Settings.factor, Settings.value_of_toInt (n := -100) (by rw [h]; decide)]
      norm_num
    refine ⟨s.tone fns p.luma, ?_⟩
    simp only [band, Pipeline.band_apply hproduct hfns, hsat, along_zero]
    rfl
  · rw [Pipeline.band_apply_gray hproduct hfns, Settings.tone_half]
    rfl

/-- Full red under more saturation, a brighter luminosity and four times the contrast. -/
theorem curve_of_red :
    let s : Settings := ⟨⟨0, 50, 0, 20, 127⟩⟩
    let band := (Pipeline.ofSettings .real s).band
    ColorMatrix.ColumnProduct Library.real.times ∧
    ColorMatrix.contrastSlope Elementary.real 0 = 1 ∧ (band.apply ⟨1, 0, 0⟩).r = 4.88976 ∧
    band.apply (.gray 0.5) = .gray 0.6 := by
  intro s band
  have hone : ColorMatrix.contrastSlope Elementary.real 0 = 1 := by
    simp [ColorMatrix.contrastSlope, Elementary.real]
  have hslope : ColorMatrix.contrastSlope (Library.real : Elementary ℝ) (127 : ℝ) = 4 := by
    have hexponent : (127 : ℝ) / 63.5 = (2 : ℕ) := by norm_num
    simp only [ColorMatrix.contrastSlope, Library.real, Elementary.real]
    rw [hexponent, Real.rpow_natCast]
    norm_num
  have hsat : (s.value .saturation : ℝ) = (50 : ℤ) := Settings.value_of_toInt (by decide)
  have hlum : (s.value .luminosity : ℝ) = (20 : ℤ) := Settings.value_of_toInt (by decide)
  have hcon : (s.value .contrast : ℝ) = (127 : ℤ) := Settings.value_of_toInt (by decide)
  push_cast at hsat hlum hcon
  obtain ⟨hcurve, -, -, -, -, hgray⟩ := matrix_is_the_curve .real columnProduct_real hone s
  simp only [hlum] at hgray
  simp only [hsat, hlum, hcon, hslope] at hcurve
  refine ⟨columnProduct_real, hone, ?_, ?_⟩
  · rw [hcurve (by norm_num)]
    simp only [Rgb.map_r, Rgb.luma]
    norm_num
  · rw [hgray]
    norm_num

end HueSaturation
