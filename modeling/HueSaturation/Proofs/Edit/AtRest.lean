import HueSaturation.Proofs.Edit.Valid
import HueSaturation.Proofs.Stage.OneTurn

/-!
# Edits at rest are recognized

No two controls cancel each other: a pipeline is the identity only if every control is at rest, up
to whole turns of the hue. Contrast shows in the constant of the red row, which saturation and
luminosity leave at zero; saturation shows in the part of green in red, whatever it is scaled by;
and luminosity alone shows on the diagonal.

* `Elementary.Exp2Apart`          what is relied on of powers of two;
* `Settings.AtRest`               the settings that leave every image as it is;
* `HueRotation.isIdentity_ofDegrees`   degrees of whole turns;
* `ColorMatrix.at_rest_of_isIdentity`   saturation and luminosity at rest;
* `ColorMatrix.contrast_mul_ne`   a contrast curve is seen after any colors;
* `Pipeline.isIdentity_iff`       the identity is recognized exactly;
* `idle_edit_is_recognized`       and it leaves the back, however it is composed.
-/

namespace HueSaturation

open Binary32

/-- Powers up to the 33rd are numbers, and those with an exponent away from zero differ from one. -/
structure Elementary.Exp2Apart (fns : Elementary Float32) : Prop where
  finite : ∀ x, Scalar.within (-33.0) 33.0 x → (fns.exp2 x).isFinite
  apart : ∀ x, Scalar.within (-33.0) 33.0 x → 0.015625 ≤ x.abs → fns.exp2 x ≠ 1.0

/-- Every control is at zero, or the hue at whole turns. -/
structure Settings.AtRest (s : Settings) : Prop where
  saturation : s.values.get .saturation = 0
  vibrance : s.values.get .vibrance = 0
  luminosity : s.values.get .luminosity = 0
  contrast : s.values.get .contrast = 0
  hue : 360 ∣ (s.values.get .hue).toInt

variable {fns : Library Float32} {s : Settings} {x y z : Float32}

/-! ## the hue -/

namespace HueRotation

variable {n m : ℤ} {q : ℚ}

theorem rounds_degrees (hx : x.isFinite) (h1 : val x = n) : Rounds (x / 360.0) (n / 360) := by
  have hturn : (360.0 : Float32).isFinite ∧ val 360.0 = 360 :=
    finite_of_ofInt (n := 360) (by decide +kernel) (by norm_num)
  have h2 := rounds_div hx hturn.1 (by rw [hturn.2]; norm_num)
  rw [h1, hturn.2] at h2
  exact h2

theorem abs_degrees_lt (h1 : |n| ≤ 2048) : |(n : ℚ) / 360| < 2 ^ (3 : ℤ) := by
  have h2 : |(n : ℚ)| ≤ 2048 := by exact_mod_cast h1
  rw [abs_div, abs_of_pos (by norm_num : (0 : ℚ) < 360), div_lt_iff₀ (by norm_num)]
  exact h2.trans_lt (by norm_num)

/-- Whole degrees that are not whole turns are further away from them than rounding leads. -/
theorem eq_of_near (h1 : |q - m| ≤ 2 ^ (-25 : ℤ)) (h2 : |q - n / 360| ≤ 2 ^ (-22 : ℤ)) :
    n = 360 * m := by
  have hlt : |(n : ℚ) - 360 * m| < 1 := by
    rw [abs_le] at h1 h2
    rw [abs_lt]
    norm_num at h1 h2
    constructor <;> linarith [h1.1, h1.2, h2.1, h2.2]
  have hzero : n - 360 * m = 0 := by
    rw [← Int.abs_lt_one_iff]
    exact_mod_cast hlt
  exact sub_eq_zero.1 hzero

/-- A rotation by whole degrees is none just where they are whole turns. -/
theorem isIdentity_ofDegrees (hx : x.isFinite) (h1 : val x = n) (h2 : |n| ≤ 2048) :
    (ofDegrees x).isIdentity = true ↔ 360 ∣ n := by
  have hround := rounds_degrees hx h1
  have hsmall := abs_degrees_lt h2
  obtain ⟨hfinite, hval, -⟩ := hround.within hsmall.le (by norm_num) (by norm_num)
  constructor
  · intro h
    obtain ⟨m, hm⟩ := exists_near_of_isIdentity hfinite h
    have herror : |val (x / 360.0) - n / 360| ≤ 2 ^ (-22 : ℤ) := by
      rw [hval]
      exact (abs_rnd_sub_le hsmall (by norm_num)).trans_eq (by norm_num)
    exact ⟨m, eq_of_near hm herror⟩
  · rintro ⟨m, rfl⟩
    have hexact : ((360 * m : ℤ) : ℚ) / 360 = m := by
      push_cast
      ring
    have hm : |m| ≤ 2 ^ 24 := by
      rw [abs_le] at h2 ⊢
      omega
    rw [hexact] at hround
    exact (isIdentity_iff _).2 (.inr (.inl ⟨m, (hround.whole hm).2⟩))

end HueRotation

namespace ColorMatrix

variable {k j : ℕ} {m : ColorMatrix Float32}

/-! ## saturation and luminosity -/

theorem diagonal_mul_red (hx : Binary32.Same j x x) (hm : m.Same k m) (h1 : j + k ≤ 127) :
    (diagonal x x x * m).red.Same (j + k)
      ⟨x * m.red.r, x * m.red.g, x * m.red.b, x * m.red.c⟩ := by
  have hentry {a b c d : Float32} (ha : Binary32.Same k a a) (hb : Binary32.Same k b b)
      (hc : Binary32.Same k c c) (hd : Binary32.Same k d d) :
      Binary32.Same (j + k) (x * a + 0.0 * b + 0.0 * c + 0.0 * d) (x * a) :=
    (((hx.mul ha h1).add_zero (same_zero.zero_mul hb)).add_zero
      (same_zero.zero_mul hc)).add_zero (same_zero.zero_mul hd)
  exact ⟨hentry hm.red.r hm.green.r hm.blue.r hm.one.r,
    hentry hm.red.g hm.green.g hm.blue.g hm.one.g, hentry hm.red.b hm.green.b hm.blue.b hm.one.b,
    hentry hm.red.c hm.green.c hm.blue.c hm.one.c⟩

/-- A factor is not tiny if it brings a bounded number to one. -/
theorem le_abs_of_mul (hx : Binary32.Same 6 x x) (hy : Binary32.Same 8 y y)
    (h1 : val (x * y) = 1) : 2 ^ (-9 : ℤ) ≤ |val x| := by
  by_contra hc
  rw [not_le] at hc
  have h2 : |val x * val y| ≤ 2 ^ (-1 : ℤ) := by
    rw [abs_mul]
    calc |val x| * |val y| ≤ 2 ^ (-9 : ℤ) * 2 ^ 8 := by gcongr; exact hy.le
      _ = 2 ^ (-1 : ℤ) := by norm_num
  have h3 := abs_rnd_le h2 (by norm_num)
  rw [← hx.val_mul hy (by omega), h1, abs_one] at h3
  exact absurd h3 (by norm_num)

/-- Saturation leaves the constant of the red row at zero, and luminosity does so as well. -/
theorem red_constant (hx : Binary32.Same 6 x x) (hy : Binary32.Same 6 y y) :
    Binary32.Same 14 (diagonal x x x * saturation y).red.c 0.0 :=
  (diagonal_mul_red hx (sound_saturation hy).same (by omega)).c.trans (hx.mul_zero same_zero)

theorem red_of_isIdentity (hx : Binary32.Same 6 x x) (hy : Binary32.Same 6 y y)
    (h : (diagonal x x x * saturation y).band.isIdentity = true) :
    val (x * (saturation y).red.r) = 1 ∧ val (x * (saturation y).red.g) = 0 := by
  have hsound := sound_saturation hy
  have hrow := diagonal_mul_red hx hsound.same (by omega)
  obtain ⟨hred, -, -⟩ := (isIdentity_iff ((sound_diagonal hx).same.mul hsound.same (by omega))).1 h
  have hone := (hrow.symm.trans hred).r.val_eq
  have hzero := (hrow.symm.trans hred).g.val_eq
  exact ⟨hone.trans val_one, hzero.trans val_zero⟩

/-- Scaled saturation is the identity only at rest: what it mixes into red cannot be scaled away
without red itself. -/
theorem at_rest_of_isIdentity (hs : ∀ k, |(s.values.get k).toInt| ≤ 2048)
    (h : (Pipeline.wholeLinear s).band.isIdentity = true) :
    s.values.get .saturation = 0 ∧ s.values.get .luminosity = 0 := by
  have hlit := same_factor (Pipeline.stored_value hs .luminosity)
  have hfactor := same_factor (Pipeline.stored_value hs .saturation)
  obtain ⟨hred, hgreen⟩ := red_of_isIdentity hlit hfactor h
  have hshort (k : Control) : |(s.values.get k).toInt| < 2 ^ 16 := (hs k).trans_lt (by norm_num)
  have hne {k : Control} (hk : s.values.get k ≠ 0) : (s.values.get k).toInt ≠ 0 :=
    fun h1 => hk (Int16.toInt_inj.1 h1)
  have hsaturation : s.values.get .saturation = 0 := by
    by_contra hk
    have hsound := (sound_saturation hfactor).same.red
    obtain ⟨-, hmixed⟩ := Vibrance.le_abs_green (s.finite_value .saturation).1
      (s.finite_value .saturation).2 (hne hk) (hshort _)
    have haway : 2 ^ (-20 : ℤ) ≤ |val (s.value .luminosity / 100.0 + 1.0)
        * val (saturation (s.value .saturation / 100.0 + 1.0)).red.g| := by
      rw [abs_mul]
      calc (2 : ℚ) ^ (-20 : ℤ) = 2 ^ (-9 : ℤ) * 2 ^ (-11 : ℤ) := by norm_num
        _ ≤ _ := mul_le_mul (le_abs_of_mul hlit hsound.r hred) hmixed (by positivity) (abs_nonneg _)
    have hrnd := le_abs_rnd haway (by norm_num)
    rw [← hlit.val_mul hsound.g (by omega), hgreen, abs_zero] at hrnd
    exact absurd hrnd (by norm_num)
  refine ⟨hsaturation, ?_⟩
  by_contra hk
  obtain ⟨-, hrest, -⟩ := Vibrance.le_abs_rest (s.finite_value .luminosity).1
    (s.finite_value .luminosity).2 (hne hk) (hshort _)
  -- without saturation the diagonal is the luminosity factor
  rw [Settings.value_of_zero hsaturation, saturation_neutral] at hred
  have hone : val (s.value .luminosity / 100.0 + 1.0) = 1 := by
    rw [← hred]
    exact congrArg val (mul_one_eq hlit.left).symm
  rw [(sub_self_val inUnit_one.1 hlit.left (val_one.trans hone.symm)).2, abs_zero] at hrest
  exact absurd hrest (by norm_num)

/-! ## contrast -/

theorem offset_ne_zero (hx : Binary32.Same 6 x x) (h1 : 2 ^ (-14 : ℤ) ≤ val x) (hy : y.isFinite)
    (h2 : y ≠ 1.0) : ¬ (x * (1.0 - y) == 0.0) := by
  have hval : val y ≠ 1 := fun h =>
    h2 (eq_of_val hy same_one.left (h.trans val_one.symm) (by rw [h]; exact one_ne_zero))
  have hround := rounds_one_sub hy
  have hrest : (1.0 - y).isFinite :=
    hround.finite_of_le hy (by linarith [abs_sub (1 : ℚ) (val y), abs_one (α := ℚ)])
  have haway : 2 ^ (-24 : ℤ) ≤ |val (1.0 - y)| := by
    rw [hround.val_of_finite hrest]
    exact le_abs_rnd (le_abs_one_sub hy hval) (by norm_num)
  intro h
  have hoffset : (x * (1.0 - y)).isFinite ∧ val (x * (1.0 - y)) = 0 := by
    rcases zero_of_beq h with h3 | h3
    · rw [h3]
      exact ⟨rfl, val_zero⟩
    · rw [h3]
      exact ⟨rfl, val_neg_zero⟩
  have h3 := le_abs_rnd (le_abs_offset h1 haway) (by norm_num)
  rw [← (rounds_mul hx.left hrest).val_of_finite hoffset.1, hoffset.2, abs_zero] at h3
  exact absurd h3 (by norm_num)

/-- What is added to a zero is seen, whatever it is. -/
theorem beq_zero_of_add (hz : Binary32.Same 0 z 0.0) (h : z + x * 1.0 == 0.0) : x == 0.0 := by
  by_cases hx : x.isFinite
  · rw [mul_one_eq hx] at h
    obtain ⟨h1, h2⟩ := add_zero_left hz.left hx hz.val_eq
    rw [beq_iff h1 rfl, h2] at h
    exact (beq_iff hx rfl).2 h
  · rcases zero_cases hz.left hz.val_eq with rfl | rfl <;>
      rcases special_cases hx with rfl | rfl | rfl <;> exact absurd h (by decide +kernel)

/-- Contrast other than none has an exponent away from zero. -/
theorem le_abs_slope_amount {n : ℤ} (hx : x.isFinite) (h1 : val x = n) (h2 : n ≠ 0)
    (h3 : |n| ≤ 2048) : 0.015625 ≤ (x / 63.5).abs := by
  have hleast : (0.015625 : Float32).isFinite ∧ val 0.015625 = 2 ^ (-6 : ℤ) := by
    have h4 : unpacked (0.015625 : Float32) = .finite .positive 8388608 (-29) (by decide) := rfl
    refine ⟨rfl, ?_⟩
    rw [val, h4, worth]
    norm_num [Float.Model.UnpackedFloat.Sign.apply]
  have h4 : (1 : ℚ) ≤ |(n : ℚ)| := by exact_mod_cast Int.one_le_abs h2
  have h5 : |(n : ℚ)| ≤ 2048 := by exact_mod_cast h3
  have hquotient : |(n : ℚ) / (127 / 2)| = |(n : ℚ)| / (127 / 2) := by
    rw [abs_div, abs_of_pos (by norm_num : (0 : ℚ) < 127 / 2)]
  obtain ⟨hf, hval, -⟩ := (rounds_slope_amount hx h1).within (k := 6)
    (by rw [hquotient, div_le_iff₀ (by norm_num)]; exact h5.trans (by norm_num))
    (by norm_num) (by norm_num)
  obtain ⟨hf', hval'⟩ := finite_abs hf
  rw [le_iff hleast.1 hf', hleast.2, hval', hval]
  refine le_abs_rnd ?_ (by norm_num)
  rw [hquotient, le_div_iff₀ (by norm_num)]
  exact le_trans (by norm_num) h4

theorem contrast_red (h : (Scalar.le 0.0001 (contrastPivot y)
      && Scalar.isFinite (contrastSlope fns x)) = true) : (contrast fns x y).red
    = ⟨contrastSlope fns x, 0.0, 0.0, contrastPivot y * (1.0 - contrastSlope fns x)⟩ :=
  congrArg ColorMatrix.red (if_pos h)

/-- A contrast curve with a pivot is seen after any colors whose red row has no constant. -/
theorem contrast_mul_ne (hy : Binary32.Stored y)
    (hpivot : Scalar.le 0.0001 (contrastPivot y) = true) (hslope : (contrastSlope fns x).isFinite)
    (hone : contrastSlope fns x ≠ 1.0) (hm : m.Sound k) (hc : Binary32.Same 0 m.red.c 0.0) :
    (contrast fns x y * m).band.isIdentity = false := by
  have hlast : m.one.c = 1.0 := eq_of_val hm.one.c.left hm.one.c.right hm.one.c.val_eq
    (by rw [hm.one.c.val_eq]; exact val_one.trans_ne one_ne_zero)
  have hwide : Binary32.Same 128 (contrastSlope fns x) (contrastSlope fns x) :=
    .refl hslope (unpacked_canonical hslope).2.le
  have hfirst := ((hwide.mul_zero hc).add_zero (same_zero.zero_mul hm.same.green.c)).add_zero
    (same_zero.zero_mul hm.same.blue.c)
  have hconstant : (contrast fns x y * m).red.c
      = contrastSlope fns x * m.red.c + 0.0 * m.green.c + 0.0 * m.blue.c
        + contrastPivot y * (1.0 - contrastSlope fns x) * 1.0 := by
    show (contrast fns x y).red.dot m.transpose.one = _
    rw [contrast_red (Bool.and_eq_true_iff.2 ⟨hpivot, hslope⟩), ← hlast]
    rfl
  rw [← Bool.not_eq_true]
  intro h
  have hzero := (BandMatrix.red_of_isIdentity h).2.2.2
  change ((contrast fns x y * m).red.c == 0.0) = true at hzero
  rw [hconstant] at hzero
  exact offset_ne_zero (same_pivot hy) (le_pivot hy hpivot) hslope hone
    (beq_zero_of_add hfirst hzero)

end ColorMatrix

namespace Pipeline

/-! ## the pipeline -/

theorem vibrance_isNone_iff (fns : Library Float32) (s : Settings) :
    (ofSettings fns s).vibrance.isNone = true ↔ s.values.get .vibrance = 0 := by
  rw [vibrance_ofSettings, ← s.value_at_rest_iff]
  cases (s.value .vibrance : Float32) != 0.0 with
  | true => simp
  | false => simp

theorem hue_isNone_iff (fns : Library Float32) (hs : ∀ k, |(s.values.get k).toInt| ≤ 2048) :
    (ofSettings fns s).hue.isNone = true ↔ 360 ∣ (s.values.get .hue).toInt := by
  have hstage : (ofSettings fns s).hue
      = if (HueRotation.ofDegrees (s.value .hue : Float32)).isIdentity then none
        else some (.ofDegrees (s.value .hue)) := rfl
  obtain ⟨hfinite, hval⟩ := s.finite_value .hue
  rw [hstage, ← HueRotation.isIdentity_ofDegrees hfinite hval (hs .hue)]
  cases (HueRotation.ofDegrees (s.value .hue : Float32)).isIdentity with
  | true => simp
  | false => simp

theorem linear_at_rest (h1 : s.values.get .saturation = 0) (h2 : s.values.get .luminosity = 0) :
    linear s = .identity := by
  have hne : ((0.0 : Float32) != 0.0) = false := by decide +kernel
  rw [linear, Settings.value_of_zero h1, Settings.value_of_zero h2, hne]
  rfl

/-- Away from zero contrast is seen, unless the luminosity leaves nothing to pivot around. -/
theorem pivot_of_isIdentity (hfns : fns.Exp2Apart) (hs : ∀ k, |(s.values.get k).toInt| ≤ 2048)
    (hc : ((s.value .contrast : Float32) != 0.0) = true)
    (h : (ColorMatrix.contrast fns (s.value .contrast) (s.value .luminosity)
      * linear s).band.isIdentity = true) :
    Scalar.le 0.0001 (ColorMatrix.contrastPivot (s.value .luminosity : Float32)) = false := by
  have hstored := stored_value hs
  obtain ⟨hfinite, hval⟩ := s.finite_value .contrast
  have hne := Settings.toInt_ne_zero hc
  have hwithin := ColorMatrix.within_slope_amount (hstored .contrast)
  have hslope := hfns.finite _ hwithin
  have hone := hfns.apart _ hwithin
    (ColorMatrix.le_abs_slope_amount hfinite hval hne (hs .contrast))
  have halike := linear_alike hs
  have hred := halike.same.red.c.trans (ColorMatrix.red_constant
    (ColorMatrix.same_factor (hstored .luminosity)) (ColorMatrix.same_factor (hstored .saturation)))
  rw [← Bool.not_eq_true]
  intro hpivot
  rw [ColorMatrix.contrast_mul_ne (hstored .luminosity) hpivot hslope hone halike.left
    (ColorMatrix.same_zero.trans hred.symm).symm] at h
  exact Bool.noConfusion h

theorem band_isIdentity_iff (hfns : fns.Exp2Apart) (hproduct : fns.SumsInTurn)
    (hs : ∀ k, |(s.values.get k).toInt| ≤ 2048) :
    (ofSettings fns s).band.isIdentity = true ↔ s.values.get .saturation = 0 ∧
      s.values.get .luminosity = 0 ∧ s.values.get .contrast = 0 := by
  have halike := linear_alike hs
  have hlinear (h : (linear s).band.isIdentity = true) :
      s.values.get .saturation = 0 ∧ s.values.get .luminosity = 0 :=
    ColorMatrix.at_rest_of_isIdentity hs (halike.same.isIdentity_eq ▸ h)
  rw [band, matrix_ofSettings hproduct]
  constructor
  · intro h
    split at h
    · next hc =>
      -- without a pivot the curve is the identity, but then luminosity is not at rest
      have hpivot := pivot_of_isIdentity hfns hs hc h
      have hcontrast : ColorMatrix.contrast fns.toElementary (s.value .contrast)
          (s.value .luminosity) = .identity := by
        unfold ColorMatrix.contrast
        simp only [hpivot, Bool.false_and, Bool.false_eq_true, if_false]
      rw [hcontrast, (ColorMatrix.identity_mul halike.left.same).isIdentity_eq] at h
      rw [Settings.value_of_zero (hlinear h).2] at hpivot
      exact absurd hpivot (by decide +kernel)
    · next hc =>
      obtain ⟨hsaturation, hluminosity⟩ := hlinear h
      exact ⟨hsaturation, hluminosity, (s.value_at_rest_iff .contrast).1 (Bool.not_eq_true _ ▸ hc)⟩
  · rintro ⟨hsaturation, hluminosity, hcontrast⟩
    have hidentity : (ColorMatrix.identity : ColorMatrix Float32).band.isIdentity = true := by
      decide +kernel
    rw [(s.value_at_rest_iff .contrast).2 hcontrast, linear_at_rest hsaturation hluminosity]
    exact hidentity

theorem isIdentity_iff (hfns : fns.Exp2Apart) (hproduct : fns.SumsInTurn)
    (hs : ∀ k, |(s.values.get k).toInt| ≤ 2048) :
    (ofSettings fns s).isIdentity = true ↔ s.AtRest := by
  rw [isIdentity, Bool.and_eq_true, Bool.and_eq_true, band_isIdentity_iff hfns hproduct hs,
    vibrance_isNone_iff, hue_isNone_iff fns hs]
  constructor
  · rintro ⟨⟨⟨hsaturation, hluminosity, hcontrast⟩, hvibrance⟩, hhue⟩
    exact ⟨hsaturation, hvibrance, hluminosity, hcontrast, hhue⟩
  · intro h
    exact ⟨⟨⟨h.saturation, h.luminosity, h.contrast⟩, h.vibrance⟩, h.hue⟩

end Pipeline

/-! ## the image -/

/-- The modes that make of two equal channels the same channel. -/
def BlendMode.Keeps (mode : BlendMode) : Prop :=
  mode = .normal ∨ mode = .darken ∨ mode = .lighten

theorem BlendMode.channel_self {mode : BlendMode} (h : mode.Keeps) (b : Float32) :
    mode.channel b b = b := by
  rcases h with rfl | rfl | rfl
  · rfl
  · exact ite_self b
  · exact ite_self b

namespace Blend

theorem pixel_self_beq {mode : BlendMode} (hmode : mode.Keeps) {p : Rgb Float32}
    (hp : p.all Scalar.isFinite = true) {amount : Float32} (ha : amount.isFinite) :
    pixel mode amount p p == p := by
  have hchannel {b : Float32} (hb : b.isFinite) : mix b (mode.channel b b) amount == b := by
    obtain ⟨h1, h2⟩ := mix_self hb ha
    rw [BlendMode.channel_self hmode, beq_iff h1 hb, h2]
  rw [Rgb.all, Bool.and_eq_true, Bool.and_eq_true] at hp
  show (mix p.r (mode.channel p.r p.r) amount == p.r
    && (mix p.g (mode.channel p.g p.g) amount == p.g
    && mix p.b (mode.channel p.b p.b) amount == p.b)) = true
  rw [hchannel hp.1.1, hchannel hp.1.2, hchannel hp.2]
  rfl

/-- The composition of a finite image over itself is that image, whatever shows. -/
theorem result_self_beq {b : Blend} (hmode : b.mode.Keeps) {back : RgbImage}
    (hback : ∀ p ∈ back.pixels, p.all Scalar.isFinite) (hb : b.Fits back.toSize) :
    b.result back back rfl hb == back := by
  refine Image.beq_of_at? rfl fun x y hx hy => ?_
  obtain ⟨p, q, amount, hp, hq, -, hunit, hout⟩ := b.exists_at?_result rfl hb hx hy
  obtain rfl : p = q := Option.some.inj (hp.symm.trans hq)
  exact ⟨_, p, hout, hp, pixel_self_beq hmode (hback p (Image.mem_of_at? hp)) hunit.1⟩

end Blend

theorem Pipeline.rendered_beq {l : Pipeline Float32} (hl : l.isIdentity = true) {b : Blend}
    (hmode : b.mode.Keeps) {back : RgbImage} (hback : ∀ p ∈ back.pixels, p.all Scalar.isFinite)
    (hb : b.Fits back.toSize) : l.rendered fns back b hb == back := by
  have hfront : back.map (l.frontPixel fns) = back :=
    Image.map_of_forall_eq (frontPixel_of_isIdentity hl fns) back
  have hrendered : l.rendered fns back b hb = b.result back back rfl hb := by
    rw [rendered, Host.composed_eq_result]
    simp only [hfront]
  rw [hrendered]
  exact Blend.result_self_beq hmode hback hb

/-- **An edit at rest is recognized exactly, and it is none.** A pipeline is the identity just where
saturation, vibrance, luminosity and contrast are at zero and the hue at whole turns. Then its front
is the back itself, whatever data that is, and every render of a finite back in a mode that keeps
equal channels is equal to the back: at any opacity, under any mask, at once or tile by tile. The
matrix product that is handed in adds the four products of an entry in turn. The bound on the values
is kept by all settings there are (`Settings.abs_set_le`, `abs_unpack_le`). -/
theorem idle_edit_is_recognized (hfns : fns.Exp2Apart) (hproduct : fns.SumsInTurn) (s : Settings)
    (hs : ∀ k, |(s.values.get k).toInt| ≤ 2048) :
    ((Pipeline.ofSettings fns s).isIdentity = true ↔ s.AtRest) ∧
    (s.AtRest →
      (∀ back, (Pipeline.ofSettings fns s).front fns Host.reference back = .ok back) ∧
      ∀ (back : RgbImage) (b : Blend), (∀ p ∈ back.pixels, p.all Scalar.isFinite) →
        b.Fits back.toSize → b.mode = .normal ∨ b.mode = .darken ∨ b.mode = .lighten →
        ∃ out, (Pipeline.ofSettings fns s).render fns Host.reference back b = .ok out ∧
          (∀ edge : UInt32, 1 ≤ edge →
            (Pipeline.ofSettings fns s).renderTiled fns Host.reference back b edge = .ok out) ∧
          out == back) := by
  have hiff := Pipeline.isIdentity_iff hfns hproduct hs
  refine ⟨hiff, fun hrest => ?_⟩
  have hidentity := hiff.2 hrest
  refine ⟨Pipeline.front_of_isIdentity hidentity fns, fun back b hback hb hmode => ?_⟩
  refine ⟨_, Pipeline.render_reference _ fns back b hb, fun edge he => ?_,
    Pipeline.rendered_beq hidentity hmode hback hb⟩
  refine Pipeline.renderTiled_eq_rendered _ fns hb fun hzero => ?_
  rw [hzero] at he
  exact absurd he (by decide)

/-- Two turns of the hue leave an image at half the opacity; a contrast of two doublings is no
identity. -/
theorem idle_edit_of_two_turns :
    let fns : Library Float32 :=
      { exp2 := fun x => if 0.015625 ≤ x.abs then 4.0 else 1.0
        sin := Float32.sin, cos := Float32.cos, atan2 := Float32.atan2
        hypot := Elementary.binary32.hypot, tau := 6.2831855
        times := fun x y => (x.transpose * y.transpose).transpose }
    let turned := Settings.neutral.set .hue 720.0
    let contrasted := Settings.neutral.set .contrast 127.0
    let back : RgbImage := .fill ⟨1, 1⟩ ⟨0.1, -0.0, 3.0⟩
    (∃ out, (Pipeline.ofSettings fns turned).render fns Host.reference back ⟨0.5, none, .darken⟩
      = .ok out ∧ out == back) ∧
    (Pipeline.ofSettings fns contrasted).isIdentity = false := by
  intro fns turned contrasted back
  have hfns : fns.Exp2Apart := by
    refine ⟨fun x _ => ?_, fun x _ h => ?_⟩
    · show (if 0.015625 ≤ x.abs then (4.0 : Float32) else 1.0).isFinite = true
      split
      · rfl
      · rfl
    · show (if 0.015625 ≤ x.abs then (4.0 : Float32) else 1.0) ≠ 1.0
      rw [if_pos h]
      decide +kernel
  have hback : ∀ p ∈ back.pixels, p.all Scalar.isFinite := by
    intro p hp
    rw [Vector.eq_of_mem_replicate hp]
    decide +kernel
  have hneutral : ∀ k, |(Settings.neutral.values.get k).toInt| ≤ 2048 := by
    intro k
    cases k <;> decide
  constructor
  · have hturned : turned.AtRest := ⟨rfl, rfl, rfl, rfl, ⟨2, by decide +kernel⟩⟩
    obtain ⟨-, hrest⟩ := idle_edit_is_recognized hfns (fun _ _ => rfl) turned
      (Settings.abs_set_le hneutral _ _)
    obtain ⟨out, hout, -, heq⟩ := (hrest hturned).2 back ⟨0.5, none, .darken⟩ hback
      (Blend.fits_none _ _ _) (.inr (.inl rfl))
    exact ⟨out, hout, heq⟩
  · obtain ⟨hiff, -⟩ :=
      idle_edit_is_recognized hfns (fun _ _ => rfl) contrasted (Settings.abs_set_le hneutral _ _)
    rw [← Bool.not_eq_true, hiff]
    exact fun h => absurd h.contrast (by decide +kernel)

end HueSaturation
