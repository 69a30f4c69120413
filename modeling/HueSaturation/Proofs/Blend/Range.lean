import HueSaturation.Proofs.Blend.Paths
import HueSaturation.Proofs.Color.Same
import HueSaturation.Proofs.Number.Root

/-!
# Blending stays in `[0, 1]`

No blended channel is cut down to `[0, 1]`, and none has to be: every formula keeps within it, each
operation being rounded, because the floats that bound its exact value bound the rounded one too.

* `BlendMode.inUnit_channel`   every mode, branch by branch;
* `inUnit_mix`                 the interpolation between the back and the blended channel;
* `Image.Valid`                every channel of an image is in `[0, 1]`;
* `Blend.valid_result`         composing valid images gives a valid one.
-/

namespace HueSaturation

open Binary32

variable {a b x y : Float32}

/-! ## literals -/

namespace Binary32

theorem finite_literal_two : (2.0 : Float32).isFinite ∧ val 2.0 = 2 := by
  exact_mod_cast finite_of_ofInt (n := 2) (by decide +kernel) (by norm_num)

theorem finite_literal_four : (4.0 : Float32).isFinite ∧ val 4.0 = 4 := by
  exact_mod_cast finite_of_ofInt (n := 4) (by decide +kernel) (by norm_num)

theorem finite_literal_twelve : (12.0 : Float32).isFinite ∧ val 12.0 = 12 := by
  exact_mod_cast finite_of_ofInt (n := 12) (by decide +kernel) (by norm_num)

theorem finite_literal_sixteen : (16.0 : Float32).isFinite ∧ val 16.0 = 16 := by
  exact_mod_cast finite_of_ofInt (n := 16) (by decide +kernel) (by norm_num)

theorem val_quarter : val 0.25 = 1 / 4 := by
  have h1 : unpacked (0.25 : Float32) = .finite .positive 8388608 (-25) (by decide) := rfl
  rw [val, h1, worth]
  norm_num [Float.Model.UnpackedFloat.Sign.apply]

theorem lt_half_iff (hx : x.isFinite) : x < (0.5 : Float32) ↔ val x < 1 / 2 := by
  rw [lt_iff hx finite_literal_half.1, val_half]

end Binary32

namespace BlendMode

/-! ## products -/

theorem rounds_twice (ha : InUnit a) : Rounds (2.0 * a) (2 * val a) := by
  have h1 := rounds_mul finite_literal_two.1 ha.1
  rw [finite_literal_two.2] at h1
  exact h1

theorem inUnit_twice (ha : InUnit a) (h : val a ≤ 1 / 2) : InUnit (2.0 * a) :=
  inUnit_of_rounds (rounds_twice ha) (by linarith [ha.2.1]) (by linarith)

theorem inUnit_twice_sub_one (ha : InUnit a) (h : 1 / 2 ≤ val a) : InUnit (2.0 * a - 1.0) := by
  obtain ⟨h1, h2, h3⟩ := (rounds_twice ha).between_whole (m := 1) (n := 2)
    (by push_cast; linarith) (by push_cast; linarith [ha.2.2]) (by norm_num) (by norm_num)
  push_cast at h2 h3
  have h4 := rounds_sub h1 inUnit_one.1
  rw [val_one] at h4
  exact inUnit_of_rounds h4 (by linarith) (by linarith)

theorem inUnit_twice_mul (ha : InUnit a) (hb : InUnit b) (h : val a ≤ 1 / 2 ∨ val b ≤ 1 / 2) :
    InUnit (2.0 * a * b) := by
  rcases h with h | h
  · exact inUnit_mul (inUnit_twice ha h) hb
  · obtain ⟨h1, h2, h3⟩ := (rounds_twice ha).between_whole (m := 0) (n := 2)
      (by push_cast; linarith [ha.2.1]) (by push_cast; linarith [ha.2.2]) (by norm_num)
      (by norm_num)
    push_cast at h2 h3
    have hb0 := hb.2.1
    exact inUnit_of_rounds (rounds_mul h1 hb.1) (by positivity) (by nlinarith)

theorem inUnit_multiplyOrScreen {key : Float32} (hkey : key = a ∨ key = b) (ha : InUnit a)
    (hb : InUnit b) : InUnit (multiplyOrScreen key a b) := by
  have hk : InUnit key := by
    rcases hkey with rfl | rfl
    · exact ha
    · exact hb
  rw [multiplyOrScreen]
  split
  · next h =>
    have hlow : val key ≤ 1 / 2 := ((lt_half_iff hk.1).1 h).le
    refine inUnit_twice_mul ha hb ?_
    rcases hkey with rfl | rfl
    · exact .inl hlow
    · exact .inr hlow
  · next h =>
    have hhigh : 1 / 2 ≤ val key := not_lt.1 fun hc => h ((lt_half_iff hk.1).2 hc)
    refine inUnit_one_sub (inUnit_twice_mul (inUnit_one_sub ha) (inUnit_one_sub hb) ?_)
    rcases hkey with rfl | rfl
    · exact .inl (val_one_sub_le_half ha hhigh)
    · exact .inr (val_one_sub_le_half hb hhigh)

/-! ## soft light -/

/-- The cubic of the darks, bounded operation by operation. -/
theorem inUnit_cubic (hb : InUnit b) (h : val b < 1 / 4) :
    InUnit (((16.0 * b - 12.0) * b + 4.0) * b) := by
  obtain ⟨hbf, hb0, -⟩ := hb
  -- each bound is a whole number, which no rounding crosses
  have h1 := rounds_mul finite_literal_sixteen.1 hbf
  rw [finite_literal_sixteen.2] at h1
  obtain ⟨hf1, hlow1, hhigh1⟩ := h1.between_whole (m := 0) (n := 4) (by push_cast; linarith)
    (by push_cast; linarith) (by norm_num) (by norm_num)
  push_cast at hlow1 hhigh1
  have h2 := rounds_sub hf1 finite_literal_twelve.1
  rw [finite_literal_twelve.2] at h2
  obtain ⟨hf2, hlow2, hhigh2⟩ := h2.between_whole (m := -12) (n := -8) (by push_cast; linarith)
    (by push_cast; linarith) (by norm_num) (by norm_num)
  push_cast at hlow2 hhigh2
  have h3 := rounds_mul hf2 hbf
  obtain ⟨hf3, hlow3, hhigh3⟩ := h3.between_whole (m := -3) (n := 0) (by push_cast; nlinarith)
    (by push_cast; nlinarith) (by norm_num) (by norm_num)
  push_cast at hlow3 hhigh3
  have h4 := rounds_add hf3 finite_literal_four.1
  rw [finite_literal_four.2] at h4
  obtain ⟨hf4, hlow4, hhigh4⟩ := h4.between_whole (m := 1) (n := 4) (by push_cast; linarith)
    (by push_cast; linarith) (by norm_num) (by norm_num)
  push_cast at hlow4 hhigh4
  -- at most four quarters
  exact inUnit_of_rounds (rounds_mul hf4 hbf) (by nlinarith) (by nlinarith)

theorem inUnit_softCurve (hb : InUnit b) : InUnit (softCurve b) := by
  rw [softCurve]
  split
  · next h =>
    rw [lt_iff hb.1 rfl, val_quarter] at h
    exact inUnit_cubic hb h
  · exact inUnit_sqrt hb

/-- The dark half takes away at most what is there. -/
theorem inUnit_sub_products (ha : InUnit a) (hb : InUnit b) :
    InUnit (b - a * b * (1.0 - b)) := by
  have hrest : InUnit (1.0 - b) := inUnit_one_sub hb
  have hinner : InUnit (a * b) := inUnit_mul ha hb
  have hle : val (a * b * (1.0 - b)) ≤ val b :=
    (val_mul_le_left hinner hrest).trans (val_mul_le_right ha hb)
  obtain ⟨h1, h2, -⟩ := inUnit_mul hinner hrest
  exact inUnit_of_rounds (rounds_sub hb.1 h1) (by linarith) (by linarith [hb.2.2])

theorem inUnit_softLight (ha : InUnit a) (hb : InUnit b) : InUnit (softLight.channel a b) := by
  rw [channel]
  split
  · next h =>
    have hlow : val a ≤ 1 / 2 := ((lt_half_iff ha.1).1 h).le
    exact inUnit_sub_products (inUnit_one_sub (inUnit_twice ha hlow)) hb
  · next h =>
    have hhigh : 1 / 2 ≤ val a := not_lt.1 fun hc => h ((lt_half_iff ha.1).2 hc)
    exact inUnit_interpolate hb (inUnit_softCurve hb) (inUnit_twice_sub_one ha hhigh)

/-! ## all modes -/

theorem inUnit_channel (mode : BlendMode) (ha : InUnit a) (hb : InUnit b) :
    InUnit (mode.channel a b) := by
  cases mode with
  | normal => exact ha
  | multiply => exact inUnit_mul ha hb
  | screen => exact inUnit_one_sub (inUnit_mul (inUnit_one_sub ha) (inUnit_one_sub hb))
  | overlay => exact inUnit_multiplyOrScreen (.inr rfl) ha hb
  | softLight => exact inUnit_softLight ha hb
  | hardLight => exact inUnit_multiplyOrScreen (.inl rfl) ha hb
  | darken =>
    rw [channel, Scalar.least]
    split
    · exact ha
    · exact hb
  | lighten =>
    rw [channel, Scalar.greatest]
    split
    · exact ha
    · exact hb
  | difference => exact inUnit_abs_sub ha hb

end BlendMode

/-! ## compositions -/

theorem inUnit_mix {amount : Float32} (hb : InUnit b) (hx : InUnit x) (ha : InUnit amount) :
    InUnit (mix b x amount) := by
  rw [mix]
  split
  · exact hx
  · split
    · exact hb
    · exact inUnit_interpolate hb hx ha

namespace Blend

theorem inUnit_pixel {mode : BlendMode} {amount : Float32} {p q : Rgb Float32}
    (ha : InUnit amount) (hp : p.InUnit) (hq : q.InUnit) : (pixel mode amount p q).InUnit :=
  ⟨inUnit_mix hp.r (mode.inUnit_channel hq.r hp.r) ha,
    inUnit_mix hp.g (mode.inUnit_channel hq.g hp.g) ha,
    inUnit_mix hp.b (mode.inUnit_channel hq.b hp.b) ha⟩

end Blend

/-! ## valid images -/

theorem Rgb.all_within_iff {p : Rgb Float32} : p.all (Scalar.within 0.0 1.0) = true ↔ p.InUnit := by
  rw [all, Bool.and_eq_true, Bool.and_eq_true, within_iff_inUnit, within_iff_inUnit,
    within_iff_inUnit]
  exact ⟨fun h => ⟨h.1.1, h.1.2, h.2⟩, fun h => ⟨⟨h.r, h.g⟩, h.b⟩⟩

namespace Image

/-- Every channel of every pixel is in `[0, 1]`. -/
def Valid (img : RgbImage) : Prop :=
  ∀ p ∈ img.pixels, p.all (Scalar.within 0.0 1.0)

variable {π : Type}

theorem mem_of_at? {img : Image π} {x y : Nat} {p : π} (h : img.at? x y = some p) :
    p ∈ img.pixels := by
  rw [at?] at h
  split at h
  · exact Vector.mem_of_getElem? h
  · cases h

theorem exists_at?_of_mem {img : Image π} {p : π} (h : p ∈ img.pixels) :
    ∃ x y, x < img.width.toNat ∧ y < img.height.toNat ∧ img.at? x y = some p := by
  obtain ⟨i, hi, rfl⟩ := Vector.getElem_of_mem h
  refine ⟨_, _, Size.column_lt hi, Size.row_lt hi, ?_⟩
  rw [img.at?_of_lt (Size.column_lt hi) (Size.row_lt hi)]
  simp only [Nat.div_add_mod']
  rfl

variable {img : RgbImage}

theorem Valid.inUnit (h : img.Valid) {p : Rgb Float32} (hp : p ∈ img.pixels) : p.InUnit :=
  Rgb.all_within_iff.mp (h p hp)

theorem valid_map {f : Rgb Float32 → Rgb Float32} (h : ∀ p ∈ img.pixels, (f p).InUnit) :
    (img.map f).Valid := by
  intro q hq
  obtain ⟨p, hp, rfl⟩ := Vector.mem_map.mp hq
  exact Rgb.all_within_iff.mpr (h p hp)

theorem valid_fill {size : Size} {p : Rgb Float32} (h : p.all (Scalar.within 0.0 1.0) = true) :
    (fill size p).Valid := by
  intro q hq
  obtain rfl := Vector.eq_of_mem_replicate hq
  exact h

end Image

theorem Blend.valid_result (s : Blend) {back front : RgbImage} (hf : front.toSize = back.toSize)
    (hs : s.Fits back.toSize) (hback : back.Valid) (hfront : front.Valid) :
    (s.result back front hf hs).Valid := by
  intro p hp
  obtain ⟨x, y, hx, hy, hout⟩ := Image.exists_at?_of_mem hp
  obtain ⟨b, f, amount, hb, hfront', -, hunit, hpixel⟩ := s.exists_at?_result hf hs hx hy
  rw [hout] at hpixel
  obtain rfl := Option.some.inj hpixel
  exact Rgb.all_within_iff.mpr (inUnit_pixel hunit (hback.inUnit (Image.mem_of_at? hb))
    (hfront.inUnit (Image.mem_of_at? hfront')))

end HueSaturation
