import HueSaturation.Proofs.Color.Affine

/-!
# The curves of effects

What the matrix of an effect does to a pixel, channel by channel. The luma weights add up to one, so
whatever is affine in the channels is the same curve in the luma.

* `Rgb.luma_map`               the luma of a pixel on an affine curve;
* `along`                      a number moved on its line through another one;
* `luma_map_along`             channels moved on their lines through the luma keep it;
* `ColorMatrix.apply_saturation`, `apply_diagonal`, `apply_contrast`   the three curves;
* `Effect.inTurn_if`           an effect that may be left out where it changes nothing.
-/

namespace HueSaturation

/-! ## lines -/

namespace Rgb

theorem luma_map (k d : ℝ) (p : Rgb ℝ) : (p.map fun x => k * x + d).luma = k * p.luma + d := by
  simp only [luma, map]
  ring

theorem luma_gray (y : ℝ) : (gray y).luma = y := by
  simp only [luma, gray]
  ring

theorem map_gray (f : ℝ → ℝ) (y : ℝ) : (gray y).map f = gray (f y) :=
  rfl

end Rgb

/-- `x` moved on its line through `y`, to `k` times the distance. -/
def along (y k x : ℝ) : ℝ :=
  y + k * (x - y)

theorem along_self (y k : ℝ) : along y k y = y := by
  rw [along, sub_self, mul_zero, add_zero]

theorem along_zero (y x : ℝ) : along y 0 x = y := by
  rw [along, zero_mul, add_zero]

theorem along_one (y : ℝ) : along y 1 = id := by
  funext x
  rw [along, one_mul, add_sub_cancel]
  rfl

theorem along_eq (y k : ℝ) : along y k = fun x => k * x + (y - k * y) := by
  funext x
  rw [along]
  ring

theorem along_mono {k : ℝ} (hk : 0 ≤ k) (y : ℝ) : Monotone (along y k) := by
  intro x z h
  unfold along
  gcongr

theorem luma_map_along (k : ℝ) (p : Rgb ℝ) : (p.map (along p.luma k)).luma = p.luma := by
  rw [along_eq, Rgb.luma_map]
  ring

/-! ## the three curves -/

namespace ColorMatrix

variable {fns : Elementary ℝ} {amount luminosity : ℝ}

theorem apply_saturation (k : ℝ) (p : Rgb ℝ) :
    (saturation k).apply p = p.map (along p.luma k) := by
  simp only [ColorMatrix.apply, BandMatrix.apply, band, saturation, Row.eval, Rgb.map, Rgb.luma,
    along, Rgb.mk.injEq, Exact.zero_eq, Exact.one_eq]
  refine ⟨?_, ?_, ?_⟩ <;> ring

theorem apply_diagonal (k : ℝ) (p : Rgb ℝ) : (diagonal k k k).apply p = p.map fun x => k * x := by
  simp only [ColorMatrix.apply, BandMatrix.apply, band, diagonal, Row.eval, Rgb.map, Rgb.mk.injEq,
    Exact.zero_eq]
  refine ⟨?_, ?_, ?_⟩ <;> ring

theorem contrastPivot_eq (luminosity : ℝ) :
    contrastPivot luminosity = 0.5 * (luminosity / 100 + 1) := by
  rw [contrastPivot, Exact.percent_eq]

theorem apply_contrast_of_le (h : 0.0001 ≤ contrastPivot luminosity) (p : Rgb ℝ) :
    (contrast fns amount luminosity).apply p = p.map fun x =>
      (x - contrastPivot luminosity) * contrastSlope fns amount + contrastPivot luminosity := by
  have hpivot : (Scalar.le 0.0001 (contrastPivot luminosity)
      && Scalar.isFinite (contrastSlope fns amount)) = true := by
    rw [Exact.le_iff.2 h]
    rfl
  rw [contrast]
  simp only [if_pos hpivot]
  simp only [ColorMatrix.apply, BandMatrix.apply, band, Row.eval, Rgb.map, Rgb.mk.injEq,
    Exact.zero_eq, Exact.one_eq]
  refine ⟨?_, ?_, ?_⟩ <;> ring

theorem apply_contrast_of_lt (h : contrastPivot luminosity < 0.0001) (p : Rgb ℝ) :
    (contrast fns amount luminosity).apply p = p := by
  have hpivot : ¬(Scalar.le 0.0001 (contrastPivot luminosity)
      && Scalar.isFinite (contrastSlope fns amount)) = true := by
    rw [Bool.and_eq_true, Exact.le_iff]
    exact fun hle => h.not_ge hle.1
  rw [contrast]
  simp only [if_neg hpivot]
  exact identity_apply p

/-! ## effects at rest -/

theorem saturation_at_rest (p : Rgb ℝ) : (saturation 1).apply p = p := by
  rw [apply_saturation, along_one]
  rfl

theorem diagonal_at_rest (p : Rgb ℝ) : (diagonal 1 1 1).apply p = p := by
  simp only [apply_diagonal, one_mul]
  rfl

theorem contrast_at_rest (h : contrastSlope fns amount = 1) (p : Rgb ℝ) :
    (contrast fns amount luminosity).apply p = p := by
  rcases lt_or_ge (contrastPivot luminosity) 0.0001 with hpivot | hpivot
  · exact apply_contrast_of_lt hpivot p
  · simp only [apply_contrast_of_le hpivot, h, mul_one, sub_add_cancel]
    rfl

end ColorMatrix

namespace Effect

variable {fns : Elementary ℝ}

theorem inTurn_append (fns : Elementary ℝ) (es es' : List (Effect ℝ)) (p : Rgb ℝ) :
    inTurn fns (es ++ es') p = inTurn fns es' (inTurn fns es p) :=
  List.foldl_append

theorem inTurn_if {e : Effect ℝ} {active : Bool}
    (h : active = false → ∀ p, (e.matrix fns).apply p = p) (p : Rgb ℝ) :
    inTurn fns (if active then [e] else []) p = (e.matrix fns).apply p := by
  cases active with
  | true => rfl
  | false => exact (h rfl p).symm

end Effect
end HueSaturation
