import HueSaturation.Proofs.Stage.Vibrance
import HueSaturation.Stage.HueRotation

/-!
# The sign of a zero and the polar form

A channel that is the negative zero may have another polar form than the same pixel with the
positive zero, but only where the luma is zero, which is to say that all channels are tiny. Such a
pixel counts as gray, and the sign of a zero is lost on its affinity to flesh tones: so the stages
make the same of both.

* `Elementary.ZeroLaws`   what is relied on of the length and the angle of a vector along an axis;
* `Polar.BothGray`        polar forms between which no stage makes a difference;
* `Rgb.toPolar_cases`     pixels of the same value have one polar form, or they are both gray;
* `Vibrance.affinity_eq`, `HueRotation.same_rotation`   what that means to the stages.
-/

namespace HueSaturation

open Binary32 (val rnd)

/-- The length of a vector along an axis is that of its other side, and its angle does not depend on
the sign of the zero, or is that zero. -/
structure Elementary.ZeroLaws (fns : Elementary Float32) : Prop where
  tau : fns.tau = 6.2831855
  hypot : ∀ x z : Float32, x.isFinite → z == 0.0 →
    fns.hypot x z = x.abs ∧ fns.hypot z x = x.abs
  atan2_zero : ∀ z x : Float32, z == 0.0 → 0.0 < x → fns.atan2 z x = z
  atan2_axis : ∀ y z : Float32, 0.0 < y → z == 0.0 → fns.atan2 y z = fns.atan2 y 0.0

variable {k : ℕ} {fns : Elementary Float32} {p q : Rgb Float32} {x y : Float32}

theorem Rgb.Same.luma (h1 : p.Same 0 q) : Binary32.Same 2 p.luma q.luma := by
  obtain ⟨hr, hg, hb⟩ := ColorMatrix.inUnit_weights
  have hrg := (h1.r.mul hr.same (by omega)).add (h1.g.mul hg.same (by omega)) (by omega)
  exact hrg.add ((h1.b.mul hb.same (by omega)).mono (by omega)) (by omega)

theorem Binary32.Same.abs_eq (h1 : Binary32.Same k x y) : x.abs = y.abs := by
  by_cases h2 : val x = 0
  · have habs : ∀ z : Float32, z.isFinite → val z = 0 → z.abs = 0.0 := by
      intro z hz h
      rcases Binary32.zero_cases hz h with rfl | rfl
      · decide +kernel
      · decide +kernel
    rw [habs x h1.left h2, habs y h1.right (h1.val_eq ▸ h2)]
  · rw [Binary32.eq_of_val h1.left h1.right h1.val_eq h2]

/-- What is taken away from a zero hides its sign. -/
theorem Binary32.Same.sub_eq {l : Float32} (h1 : Binary32.Same k x y) (hk : k ≤ 126)
    (hl : Binary32.Same k l l) (h2 : val l ≠ 0) : x - l = y - l := by
  by_cases h3 : val x = 0
  · have h4 := h1.sub hl hk
    refine Binary32.eq_of_val h4.left h4.right h4.val_eq ?_
    rw [h1.val_sub hl hk, h3, zero_sub, Binary32.rnd_neg, Binary32.rnd_val hl.left]
    exact neg_ne_zero.2 h2
  · rw [Binary32.eq_of_val h1.left h1.right h1.val_eq h3]

namespace Rgb

/-! ## pixels without luma -/

/-- A product that rounds to zero has a tiny factor. -/
theorem lt_of_mul_eq_zero {w : Float32} (hx : Binary32.InUnit x) (hw : Binary32.InUnit w)
    (h1 : 1 / 16 ≤ val w) (h2 : val (x * w) = 0) : val x < 2 ^ (-140 : ℤ) := by
  by_contra hc
  rw [not_lt] at hc
  have h3 : 2 ^ (-144 : ℤ) ≤ |val x * val w| := by
    rw [abs_of_nonneg (mul_nonneg hx.2.1 hw.2.1)]
    calc (2 : ℚ) ^ (-144 : ℤ) = 2 ^ (-140 : ℤ) * (1 / 16) := by norm_num
      _ ≤ val x * val w := by gcongr
  have h4 := Binary32.le_abs_rnd h3 (by norm_num)
  rw [← hx.same.val_mul hw.same (by omega), h2, abs_zero] at h4
  exact absurd h4 (by norm_num)

theorem sixteenth_le_weights : (1 / 16 : ℚ) ≤ val 0.2126 ∧ (1 / 16 : ℚ) ≤ val 0.0722 :=
  ⟨Binary32.sixteenth_le rfl (by decide +kernel), Binary32.sixteenth_le rfl (by decide +kernel)⟩

/-- Without luma all channels that count are tiny. -/
theorem lt_of_luma_eq_zero (hp : p.InUnit) (h1 : val p.luma = 0) :
    val p.r < 2 ^ (-140 : ℤ) ∧ val p.b < 2 ^ (-140 : ℤ) := by
  obtain ⟨hr, hg, hb⟩ := ColorMatrix.inUnit_weights
  obtain ⟨hr', hb'⟩ := sixteenth_le_weights
  have hmul : ∀ {x w : Float32}, Binary32.InUnit x → Binary32.InUnit w → 0 ≤ val (x * w) := by
    intro x w hx hw
    rw [hx.same.val_mul hw.same (by omega)]
    exact Binary32.rnd_nonneg (mul_nonneg hx.2.1 hw.2.1)
  have hadd : ∀ {k : ℕ} {x y : Float32}, k ≤ 126 → Binary32.Same k x x → Binary32.Same k y y →
      0 ≤ val x → 0 ≤ val y → 0 ≤ val (x + y) ∧ (val (x + y) = 0 → val x = 0 ∧ val y = 0) := by
    intro k x y hk hx hy h2 h3
    rw [hx.val_add hy hk]
    refine ⟨Binary32.rnd_nonneg (add_nonneg h2 h3), fun h => ?_⟩
    exact (add_eq_zero_iff_of_nonneg h2 h3).1 (Binary32.add_eq_zero_of_rnd hx.left hy.left h)
  have hr0 := hp.r.same.mul hr.same (by omega)
  have hg0 := hp.g.same.mul hg.same (by omega)
  have hb0 := hp.b.same.mul hb.same (by omega)
  obtain ⟨h2, h3⟩ := hadd (by omega) hr0 hg0 (hmul hp.r hr) (hmul hp.g hg)
  obtain ⟨-, h4⟩ := hadd (by omega) (hr0.add hg0 (by omega)) (hb0.mono (by omega)) h2 (hmul hp.b hb)
  obtain ⟨h5, h6⟩ := h4 h1
  exact ⟨lt_of_mul_eq_zero hp.r hr hr' (h3 h5).1, lt_of_mul_eq_zero hp.b hb hb' h6⟩

/-- With a red or a blue that is not zero the luma is no negative zero. -/
theorem plain_luma (hp : p.InUnit) (h1 : val p.r ≠ 0 ∨ val p.b ≠ 0) : Binary32.Plain p.luma := by
  obtain ⟨hr, hg, hb⟩ := ColorMatrix.inUnit_weights
  obtain ⟨hr', hb'⟩ := sixteenth_le_weights
  have hmul : ∀ {x w : Float32}, Binary32.InUnit x → Binary32.InUnit w → 1 / 16 ≤ val w →
      val x ≠ 0 → Binary32.Plain (x * w) := by
    intro x w hx hw hw' h
    refine Binary32.plain_mul hx.1 hw.1 (lt_of_le_of_ne hx.2.1 h.symm) (by linarith) ?_
    rw [← hx.same.val_mul hw.same (by omega)]
    exact lt_of_le_of_lt (hx.same.mul hw.same (by omega)).le (by norm_num)
  have hr0 := hp.r.same.mul hr.same (by omega)
  have hg0 := hp.g.same.mul hg.same (by omega)
  have hb0 := (hp.b.same.mul hb.same (by omega)).mono (show 0 ≤ 1 by omega)
  rcases h1 with h | h
  · have h2 := hr0.plain_add hg0 (by omega) (.inl (hmul hp.r hr hr' h))
    exact (hr0.add hg0 (by omega)).plain_add hb0 (by omega) (.inl h2)
  · exact (hr0.add hg0 (by omega)).plain_add hb0 (by omega) (.inr (hmul hp.b hb hb' h))

end Rgb

/-! ## polar forms -/

/-- Two polar forms of one chroma that count as gray, and are as far from flesh tones. -/
structure Polar.BothGray (c d : Polar Float32) : Prop where
  chroma : c.chroma = d.chroma
  gray : HueRotation.isGray d
  distance : hueDistance c.hue 0.375 = hueDistance d.hue 0.375

namespace LumaChroma

variable {c d : LumaChroma Float32}

theorem abs_le_gray (hx : x.isFinite) (h1 : 0 ≤ val x) (h2 : val x < 2 ^ (-140 : ℤ)) :
    Scalar.le x.abs 0.000001 := by
  obtain ⟨h3, h4⟩ := Binary32.finite_abs hx
  have h5 : Binary32.unpacked (0.000001 : Float32) = .finite .positive 8796093 (-43) (by decide) :=
    rfl
  refine (Binary32.le_iff h3 rfl).2 ?_
  rw [h4, abs_of_nonneg h1]
  refine h2.le.trans ?_
  rw [val, h5, Binary32.worth]
  norm_num [Float.Model.UnpackedFloat.Sign.apply]

theorem pos_of_abs_pos (hx : x.isFinite) (h1 : 0 ≤ val x) (h2 : Scalar.lt 0.0 x.abs) :
    0 < val x := by
  obtain ⟨h3, h4⟩ := Binary32.finite_abs hx
  have h5 := (Binary32.lt_iff rfl h3).1 h2
  rw [h4, abs_of_nonneg h1] at h5
  exact h5

/-- Differences of one tiny length are gray. Their angles matter only if the length is positive. -/
theorem bothGray_of_hypot (hc : fns.hypot c.cb c.cr = x.abs) (hd : fns.hypot d.cb d.cr = x.abs)
    (hx : x.isFinite) (h1 : 0 ≤ val x) (h2 : val x < 2 ^ (-140 : ℤ))
    (h3 : 0 < val x → hueDistance (Scalar.turn (fns.atan2 c.cr c.cb / fns.tau)) 0.375
      = hueDistance (Scalar.turn (fns.atan2 d.cr d.cb / fns.tau)) 0.375) :
    (c.toPolar fns).BothGray (d.toPolar fns) where
  chroma := hc.trans hd.symm
  gray := by
    show Scalar.le (fns.hypot d.cb d.cr) 0.000001
    rw [hd]
    exact abs_le_gray hx h1 h2
  distance := by
    simp only [toPolar, hc, hd]
    split
    · next h => exact h3 (pos_of_abs_pos hx h1 h)
    · rfl

theorem bothGray_of_cr (hz : fns.ZeroLaws) (hcb : Binary32.Same k c.cb d.cb)
    (hcr : Binary32.Same k c.cr d.cr) (h1 : 0 ≤ val c.cb) (h2 : val c.cb < 2 ^ (-140 : ℤ))
    (h3 : val c.cr = 0) : (c.toPolar fns).BothGray (d.toPolar fns) := by
  have h4 : c.cr == 0.0 := (Binary32.beq_iff hcr.left rfl).2 h3
  have h5 : d.cr == 0.0 := (Binary32.beq_iff hcr.right rfl).2 (hcr.val_eq ▸ h3)
  have hd : fns.hypot d.cb d.cr = c.cb.abs := by
    rw [(hz.hypot _ _ hcb.right h5).1, hcb.abs_eq]
  refine bothGray_of_hypot (hz.hypot _ _ hcb.left h4).1 hd hcb.left h1 h2 fun h6 => ?_
  have h7 : c.cb = d.cb := Binary32.eq_of_val hcb.left hcb.right hcb.val_eq h6.ne'
  have h8 : (0.0 : Float32) < c.cb := (Binary32.lt_iff rfl hcb.left).2 h6
  rw [hz.tau, ← h7, hz.atan2_zero _ _ h4 h8, hz.atan2_zero _ _ h5 h8]
  -- the quotient of either zero is the same distance away
  rcases Binary32.zero_of_beq h4 with h | h <;> rcases Binary32.zero_of_beq h5 with h' | h'
    <;> rw [h, h'] <;> decide +kernel

theorem bothGray_of_cb (hz : fns.ZeroLaws) (hcb : Binary32.Same k c.cb d.cb)
    (hcr : Binary32.Same k c.cr d.cr) (h1 : 0 ≤ val c.cr) (h2 : val c.cr < 2 ^ (-140 : ℤ))
    (h3 : val c.cb = 0) : (c.toPolar fns).BothGray (d.toPolar fns) := by
  have h4 : c.cb == 0.0 := (Binary32.beq_iff hcb.left rfl).2 h3
  have h5 : d.cb == 0.0 := (Binary32.beq_iff hcb.right rfl).2 (hcb.val_eq ▸ h3)
  have hd : fns.hypot d.cb d.cr = c.cr.abs := by
    rw [(hz.hypot _ _ hcr.right h5).2, hcr.abs_eq]
  refine bothGray_of_hypot (hz.hypot _ _ hcr.left h4).2 hd hcr.left h1 h2 fun h6 => ?_
  have h7 : c.cr = d.cr := Binary32.eq_of_val hcr.left hcr.right hcr.val_eq h6.ne'
  have h8 : (0.0 : Float32) < c.cr := (Binary32.lt_iff rfl hcr.left).2 h6
  rw [← h7, hz.atan2_axis _ _ h8 h4, hz.atan2_axis _ _ h8 h5]

end LumaChroma

/-- Pixels of the same value have one polar form, or they are both gray. -/
theorem Rgb.toPolar_cases (hz : fns.ZeroLaws) (h1 : p.Same 0 q) (hp : p.InUnit) (hq : q.InUnit) :
    p.toPolar fns = q.toPolar fns ∨ (p.toPolar fns).BothGray (q.toPolar fns) := by
  have hluma := h1.luma
  have hone : p.luma = q.luma → p.b - p.luma = q.b - q.luma → p.r - p.luma = q.r - q.luma →
      p.toPolar fns = q.toPolar fns := by
    intro h2 h3 h4
    have h5 : p.toLumaChroma = q.toLumaChroma := by
      rw [toLumaChroma, toLumaChroma, h3, h4, h2]
    rw [toPolar, toPolar, h5]
  by_cases h2 : val p.luma = 0
  swap
  · have h3 := Binary32.eq_of_val hluma.left hluma.right hluma.val_eq h2
    have hsub : ∀ {x y : Float32}, Binary32.Same 0 x y → x - p.luma = y - q.luma := by
      intro x y h
      rw [← h3]
      exact (h.mono (Nat.zero_le 2)).sub_eq (by omega) (hluma.trans hluma.symm) h2
    exact .inl (hone h3 (hsub h1.b) (hsub h1.r))
  -- without luma the differences are the channels themselves
  obtain ⟨hr, hb⟩ := lt_of_luma_eq_zero hp h2
  have hsub : ∀ {x : Float32}, Binary32.InUnit x → val (x - p.luma) = val x := by
    intro x hx
    rw [(hx.same.mono (Nat.zero_le 2)).val_sub hluma (by omega), h2, sub_zero,
      Binary32.rnd_val hx.1]
  have hcb : Binary32.Same 3 p.toLumaChroma.cb q.toLumaChroma.cb :=
    (h1.b.mono (Nat.zero_le 2)).sub hluma (by omega)
  have hcr : Binary32.Same 3 p.toLumaChroma.cr q.toLumaChroma.cr :=
    (h1.r.mono (Nat.zero_le 2)).sub hluma (by omega)
  have hcb' : val p.toLumaChroma.cb = val p.b := hsub hp.b
  have hcr' : val p.toLumaChroma.cr = val p.r := hsub hp.r
  by_cases h3 : val p.r = 0
  · exact .inr (LumaChroma.bothGray_of_cr hz hcb hcr (hcb' ▸ hp.b.2.1) (hcb' ▸ hb) (hcr'.trans h3))
  by_cases h4 : val p.b = 0
  · exact .inr (LumaChroma.bothGray_of_cb hz hcb hcr (hcr' ▸ hp.r.2.1) (hcr' ▸ hr) (hcb'.trans h4))
  have h5 : p.r = q.r := Binary32.eq_of_val h1.r.left h1.r.right h1.r.val_eq h3
  have h6 : p.b = q.b := Binary32.eq_of_val h1.b.left h1.b.right h1.b.val_eq h4
  have h7 : p.luma = q.luma := hluma.eq_of_plain (plain_luma hp (.inl h3))
    (plain_luma hq (.inl (h5 ▸ h3)))
  exact .inl (hone h7 (by rw [h6, h7]) (by rw [h5, h7]))

/-! ## the stages -/

theorem Vibrance.affinity_eq (hz : fns.ZeroLaws) (h1 : p.Same 0 q) (hp : p.InUnit)
    (hq : q.InUnit) : skinAffinity fns p = skinAffinity fns q := by
  rw [skinAffinity, skinAffinity]
  rcases Rgb.toPolar_cases hz h1 hp hq with h | h
  · rw [h]
  · rw [h.chroma, h.distance]

namespace HueRotation

variable {s : HueRotation Float32}

theorem inUnit_applyPixel (s : HueRotation Float32) (fns : Elementary Float32) (hp : p.InUnit) :
    (s.applyPixel fns p).InUnit := by
  rw [applyPixel]
  split
  · exact hp
  · simp only []
    split
    · exact hp
    · exact Rgb.inUnit_unit _

theorem same_rotation (hz : fns.ZeroLaws) (h1 : p.Same 0 q) (hp : p.InUnit) (hq : q.InUnit) :
    (s.applyPixel fns p).Same 0 (s.applyPixel fns q) := by
  rw [applyPixel, applyPixel]
  split
  · exact h1
  rcases Rgb.toPolar_cases hz h1 hp hq with h | h
  · simp only [h]
    split
    · exact h1
    · exact (Rgb.inUnit_unit _).same
  · have hgray : isGray (p.toPolar fns) := by
      rw [isGray, h.chroma]
      exact h.gray
    simp only [if_pos h.gray, if_pos hgray]
    exact h1

end HueRotation
end HueSaturation
