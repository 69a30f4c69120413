import HueSaturation.Proofs.Blend.Range
import HueSaturation.Proofs.Edit.Unskipped

/-!
# Valid images stay valid

The stages that change a pixel cut it down to `[0, 1]`; those that leave it out keep what they were
given. So a pipeline gives valid images for valid ones, and for all images once a stage is sure to
touch every pixel. Vibrance is: a setting other than zero never has the identity as its matrix.

* `Vibrance.isIdentity_ofSetting`   whatever is set, the matrix differs from the identity;
* `inUnit_combinePixel`, `inUnit_stagePixel`, `Pipeline.inUnit_frontPixel`   the stages on a pixel;
* `front_stays_valid`               the front image, for every image and every setting;
* `blending_stays_in_range`         the blend modes, the compositions, and the render.
-/

namespace HueSaturation

open Binary32

variable {fns : Library Float32} {p : Rgb Float32}

/-! ## the matrix of vibrance -/

/-- One more than a number away from zero stays away from one. -/
theorem Binary32.le_abs_one_sub_rnd {q : ℚ} (h : 2 ^ (-7 : ℤ) ≤ |q|) :
    2 ^ (-7 : ℤ) ≤ |1 - rnd (q + 1)| := by
  have hbits {m : ℤ} (hm : |m| < 2 ^ 24) : rnd (m * 2 ^ (-7 : ℤ)) = m * 2 ^ (-7 : ℤ) :=
    rnd_of_bits hm (by norm_num)
  -- 127/128 and 129/128 are floats: no sum is rounded past them
  rw [le_abs]
  rcases le_abs.1 h with h1 | h1
  · have h2 : rnd ((129 : ℤ) * 2 ^ (-7 : ℤ)) ≤ rnd (q + 1) :=
      rnd_mono (by norm_num at h1 ⊢; linarith)
    rw [hbits (by norm_num)] at h2
    norm_num at h2 ⊢
    right
    linarith
  · have h2 : rnd (q + 1) ≤ rnd ((127 : ℤ) * 2 ^ (-7 : ℤ)) :=
      rnd_mono (by norm_num at h1 ⊢; linarith)
    rw [hbits (by norm_num)] at h2
    norm_num at h2 ⊢
    left
    linarith

theorem BandMatrix.red_of_isIdentity {m : BandMatrix Float32} (h : m.isIdentity = true) :
    m.red.r == 1.0 ∧ m.red.g == 0.0 ∧ m.red.b == 0.0 ∧ m.red.c == 0.0 := by
  have hbeq : m.isIdentity = (m.red == ColorMatrix.identity.red
      && (m.green == ColorMatrix.identity.green && m.blue == ColorMatrix.identity.blue)) := rfl
  have hrow : (m.red == ColorMatrix.identity.red)
      = (m.red.r == 1.0 && (m.red.g == 0.0 && (m.red.b == 0.0 && m.red.c == 0.0))) := rfl
  rw [hbeq, hrow, Bool.and_eq_true, Bool.and_eq_true, Bool.and_eq_true, Bool.and_eq_true] at h
  exact h.1

namespace Vibrance

theorem le_abs_hundredth {v : Float32} {n : ℤ} (hv : v.isFinite) (h1 : val v = n) (h2 : n ≠ 0)
    (h3 : |n| < 2 ^ 16) : (v / 100.0).isFinite ∧ 2 ^ (-7 : ℤ) ≤ |val (v / 100.0)| ∧
      |val (v / 100.0)| ≤ 2 ^ (10 : ℤ) := by
  obtain ⟨hhundred, hval⟩ := ColorMatrix.finite_literal_hundred
  have hquotient := rounds_div hv hhundred (by rw [hval]; norm_num)
  rw [h1, hval] at hquotient
  have hlow : 2 ^ (-7 : ℤ) ≤ |(n : ℚ) / 100| := by
    have h4 : (1 : ℚ) ≤ |(n : ℚ)| := by exact_mod_cast Int.one_le_abs h2
    rw [abs_div, abs_of_pos (by norm_num : (0 : ℚ) < 100), le_div_iff₀ (by norm_num)]
    norm_num
    linarith
  have hhigh : |(n : ℚ) / 100| ≤ 2 ^ (10 : ℤ) := by
    have h4 : |(n : ℚ)| < 2 ^ 16 := by exact_mod_cast h3
    rw [abs_div, abs_of_pos (by norm_num : (0 : ℚ) < 100), div_le_iff₀ (by norm_num)]
    norm_num at h4 ⊢
    linarith
  obtain ⟨hf, hrnd, hle⟩ := hquotient.within hhigh (by norm_num) (by norm_num)
  exact ⟨hf, hrnd ▸ le_abs_rnd hlow (by norm_num), hle⟩

/-- The factor of a whole setting other than zero is away from one. -/
theorem le_abs_rest {v : Float32} {n : ℤ} (hv : v.isFinite) (h1 : val v = n) (h2 : n ≠ 0)
    (h3 : |n| < 2 ^ 16) : (1.0 - (v / 100.0 + 1.0)).isFinite ∧
      2 ^ (-7 : ℤ) ≤ |val (1.0 - (v / 100.0 + 1.0))| ∧
      |val (1.0 - (v / 100.0 + 1.0))| ≤ 2 ^ (12 : ℤ) := by
  obtain ⟨hquotient, hlow, hhigh⟩ := le_abs_hundredth hv h1 h2 h3
  have hfactor := rounds_add hquotient inUnit_one.1
  rw [val_one] at hfactor
  obtain ⟨hf, hval, hle⟩ := hfactor.within (k := 11)
    ((abs_add_le _ _).trans (by norm_num at hhigh ⊢; linarith)) (by norm_num) (by norm_num)
  have haway : 2 ^ (-7 : ℤ) ≤ |1 - val (v / 100.0 + 1.0)| := hval ▸ le_abs_one_sub_rnd hlow
  obtain ⟨hf', hval', hle'⟩ := (rounds_one_sub hf).within (k := 12)
    ((abs_sub _ _).trans (by norm_num at hle ⊢; linarith)) (by norm_num) (by norm_num)
  exact ⟨hf', hval' ▸ le_abs_rnd haway (by norm_num), hle'⟩

/-- The part of green in red is away from zero. -/
theorem le_abs_green {v : Float32} {n : ℤ} (hv : v.isFinite) (h1 : val v = n) (h2 : n ≠ 0)
    (h3 : |n| < 2 ^ 16) : ((1.0 - (v / 100.0 + 1.0)) * 0.7152).isFinite ∧
      2 ^ (-11 : ℤ) ≤ |val ((1.0 - (v / 100.0 + 1.0)) * 0.7152)| := by
  obtain ⟨hrest, hlow, hhigh⟩ := le_abs_rest hv h1 h2 h3
  obtain ⟨-, hweight, -⟩ := ColorMatrix.inUnit_weights
  have hsixteenth : (1 : ℚ) / 16 ≤ val 0.7152 := sixteenth_le hweight.1 (by decide +kernel)
  have hgreen := rounds_mul hrest hweight.1
  have hbound : |val (1.0 - (v / 100.0 + 1.0)) * val 0.7152| ≤ 2 ^ (12 : ℤ) := by
    rw [abs_mul, abs_of_nonneg hweight.2.1]
    exact (mul_le_of_le_one_right (abs_nonneg _) hweight.2.2).trans hhigh
  have haway : 2 ^ (-11 : ℤ) ≤ |val (1.0 - (v / 100.0 + 1.0)) * val 0.7152| := by
    rw [abs_mul, abs_of_nonneg hweight.2.1]
    calc (2 : ℚ) ^ (-11 : ℤ) = 2 ^ (-7 : ℤ) * (1 / 16) := by norm_num
      _ ≤ _ := by gcongr
  obtain ⟨hf, hval, -⟩ := hgreen.within hbound (by norm_num) (by norm_num)
  exact ⟨hf, hval ▸ le_abs_rnd haway (by norm_num)⟩

/-- Whatever is set, the matrix mixes green into red. -/
theorem isIdentity_ofSetting {v : Float32} {n : ℤ} (hv : v.isFinite) (h1 : val v = n) (h2 : n ≠ 0)
    (h3 : |n| < 2 ^ 16) : (ofSetting v).isIdentity = false := by
  obtain ⟨hf, hlow⟩ := le_abs_green hv h1 h2 h3
  -- so the coefficient of green in red is not zero, as it is in the identity
  rw [← Bool.not_eq_true]
  intro hidentity
  have hbeq : (1.0 - (v / 100.0 + 1.0)) * 0.7152 == 0.0 :=
    (BandMatrix.red_of_isIdentity (m := (ofSetting v).matrix) hidentity).2.1
  have hzero := (beq_iff hf inUnit_zero.1).1 hbeq
  rw [hzero, val_zero, abs_zero] at hlow
  exact absurd hlow (by norm_num)

end Vibrance

/-! ## the stages on one pixel -/

theorem BandMatrix.inUnit_combinePixel {m : BandMatrix Float32}
    (h : p.InUnit ∨ m.isIdentity = false) : (m.combinePixel p).InUnit := by
  rw [combinePixel]
  split
  · next hm => exact h.resolve_right (by rw [hm]; exact Bool.noConfusion)
  · exact Rgb.inUnit_unit _

theorem Vibrance.inUnit_stagePixel {s : Vibrance Float32} (h : p.InUnit ∨ s.isIdentity = false) :
    (s.stagePixel fns p).InUnit := by
  rw [stagePixel]
  split
  · next hs => exact h.resolve_right (by rw [hs]; exact Bool.noConfusion)
  · exact Rgb.inUnit_unit _

namespace Pipeline

/-- A pixel in `[0, 1]` stays in it, and every pixel gets there if a stage before the hue rotation
is no identity. -/
theorem inUnit_frontPixel {l : Pipeline Float32} (h : p.InUnit ∨ l.band.isIdentity = false ∨
    ∃ v, l.vibrance = some v ∧ v.isIdentity = false) : (l.frontPixel fns p).InUnit := by
  have hmatrix : (l.band.combinePixel p).InUnit ∨
      ∃ v, l.vibrance = some v ∧ v.isIdentity = false := by
    rcases h with hp | hband | hv
    · exact .inl (BandMatrix.inUnit_combinePixel (.inl hp))
    · exact .inl (BandMatrix.inUnit_combinePixel (.inr hband))
    · exact .inr hv
  have hvibrance : (l.vibrance.elim (l.band.combinePixel p)
      (·.stagePixel fns (l.band.combinePixel p))).InUnit := by
    cases hv : l.vibrance with
    | none =>
      rw [hv] at hmatrix
      exact hmatrix.resolve_right (by simp)
    | some v =>
      refine Vibrance.inUnit_stagePixel (hmatrix.imp_right ?_)
      rintro ⟨w, h1, h2⟩
      rw [Option.some.inj (hv.symm.trans h1)]
      exact h2
  rw [frontPixel]
  cases l.hue with
  | none => exact hvibrance
  | some r => exact r.inUnit_applyPixel fns hvibrance

theorem vibrance_of_isSome {s : Settings} (h : (ofSettings fns s).vibrance.isSome = true) :
    ∃ v, (ofSettings fns s).vibrance = some v ∧ v.isIdentity = false := by
  rw [vibrance_ofSettings] at h ⊢
  split at h
  · next hne =>
    -- settings are 16-bit whole numbers, so one that is not zero is at least one away from it
    obtain ⟨hfinite, hval⟩ := s.finite_value .vibrance
    refine ⟨_, if_pos hne,
      Vibrance.isIdentity_ofSetting hfinite hval (Settings.toInt_ne_zero hne) ?_⟩
    have h1 := (s.values.get .vibrance).toInt_lt
    have h2 := (s.values.get .vibrance).le_toInt
    rw [abs_lt]
    omega
  · cases h

theorem valid_front (fns : Library Float32) (s : Settings) {img : RgbImage}
    (h : img.Valid ∨ (ofSettings fns s).band.isIdentity = false ∨
      (ofSettings fns s).vibrance.isSome = true) :
    (img.map ((ofSettings fns s).frontPixel fns)).Valid :=
  Image.valid_map fun _ hp => inUnit_frontPixel
    (h.imp (·.inUnit hp) (.imp_right vibrance_of_isSome))

theorem valid_rendered (fns : Library Float32) (s : Settings) {back : RgbImage} {b : Blend}
    (hb : b.Fits back.toSize) (hback : back.Valid) :
    ((ofSettings fns s).rendered fns back b hb).Valid := by
  rw [rendered, Host.composed_eq_result]
  exact b.valid_result (Image.toSize_map _ back) hb hback (valid_front fns s (.inl hback))

end Pipeline

/-! ## images -/

/-- **The front of a valid image is valid, and garbage does not escape.** The functions may return
what they like. Where the matrix is no identity or vibrance is on, the image may hold what it likes
as well. -/
theorem front_stays_valid (fns : Library Float32) (s : Settings) (img : RgbImage) :
    ∃ out, (Pipeline.ofSettings fns s).front fns Host.reference img = .ok out ∧
      out.toSize = img.toSize ∧
      (img.Valid ∨ (Pipeline.ofSettings fns s).band.isIdentity = false ∨
        (Pipeline.ofSettings fns s).vibrance.isSome = true → out.Valid) :=
  ⟨_, Pipeline.front_reference _ fns img, Image.toSize_map _ img, Pipeline.valid_front fns s⟩

/-- Vibrance alone, on infinities and "not a number", with functions that return nothing else. -/
theorem front_of_poisoned_pixel :
    let fns : Library Float32 :=
      { exp2 := fun _ => 0.0 / 0.0, sin := fun _ => 0.0 / 0.0, cos := fun _ => 0.0 / 0.0
        atan2 := fun _ _ => 0.0 / 0.0, hypot := fun _ _ => 0.0 / 0.0, tau := 0.0 / 0.0
        times := fun _ _ => .diagonal (0.0 / 0.0) (0.0 / 0.0) (0.0 / 0.0) }
    let s : Settings := ⟨(PerControl.const 0).set .vibrance 20⟩
    ∃ out, (Pipeline.ofSettings fns s).front fns Host.reference
        (.fill ⟨1, 1⟩ ⟨0.0 / 0.0, 1.0 / 0.0, -1.0 / 0.0⟩) = .ok out ∧ out.Valid := by
  intro fns s
  obtain ⟨out, hout, -, hvalid⟩ :=
    front_stays_valid fns s (.fill ⟨1, 1⟩ ⟨0.0 / 0.0, 1.0 / 0.0, -1.0 / 0.0⟩)
  exact ⟨out, hout, hvalid (.inr (.inr (by decide +kernel)))⟩

/-- **Blending stays in `[0, 1]`**: every mode, every composition of valid images whatever its
opacity and mask are, and so every render of a valid image. -/
theorem blending_stays_in_range :
    (∀ (mode : BlendMode) (a b : Float32), Scalar.within 0.0 1.0 a → Scalar.within 0.0 1.0 b →
      Scalar.within 0.0 1.0 (mode.channel a b)) ∧
    (∀ (s : Blend) (back front : RgbImage), front.toSize = back.toSize → s.Fits back.toSize →
      back.Valid → front.Valid →
      ∃ out, Host.reference.blend back front s = .ok out ∧ out.Valid) ∧
    ∀ (fns : Library Float32) (s : Settings) (back : RgbImage) (b : Blend),
      b.Fits back.toSize → back.Valid →
      ∃ out, (Pipeline.ofSettings fns s).render fns Host.reference back b = .ok out
        ∧ out.Valid := by
  refine ⟨fun mode a b ha hb => ?_, fun s back front hf hs hback hfront => ?_,
    fun fns s back b hb hback => ?_⟩
  · exact within_of_inUnit (mode.inUnit_channel (inUnit_of_within ha) (inUnit_of_within hb))
  · exact ⟨_, s.compose_eq_result back front hf hs, s.valid_result hf hs hback hfront⟩
  · exact ⟨_, Pipeline.render_reference _ fns back b hb, Pipeline.valid_rendered fns s hb hback⟩

/-- Soft light by an infinite opacity and half a mask. -/
theorem blending_of_half_mask :
    let s : Blend := ⟨1.0 / 0.0, some (.fill ⟨1, 1⟩ 0.5), .softLight⟩
    let back : RgbImage := .fill ⟨1, 1⟩ ⟨0.1, 0.5, 1.0⟩
    let front : RgbImage := .fill ⟨1, 1⟩ ⟨0.9, 0.3, 0.0⟩
    ∃ out, Host.reference.blend back front s = .ok out ∧ out.Valid := by
  intro s back front
  have hback : back.Valid := Image.valid_fill (by decide +kernel)
  have hfront : front.Valid := Image.valid_fill (by decide +kernel)
  have hsize : front.toSize = back.toSize := Eq.refl (Size.mk 1 1)
  exact blending_stays_in_range.2.1 s back front hsize (Blend.fits_fill _ _ _ _) hback hfront

end HueSaturation
