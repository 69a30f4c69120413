import HueSaturation.Proofs.Blend.Local
import HueSaturation.Proofs.Number.Between
import HueSaturation.Proofs.Raster.Regions

/-!
# All ways of composing agree

A composition may stop early where nothing of the front shows, and it may read how much shows from
a mask or from the opacity alone. None of this can be told from the result, on any data.

* `mix_of_le_zero`, `mix_of_one_le`   the interpolation is exact at both ends;
* `mix_self`                a front that is the back leaves it, at any amount;
* `inUnit_amount`           an amount is in `[0, 1]`;
* `exists_at?_result`       a pixel of the result, and what it is made of;
* `result_of_transparent`   a transparent front leaves the back, so the short cut changes nothing
                            (`Host.reference_compose_eq`);
* `compose_congr`           a composition depends on the mode and the amounts;
* `compose_constant_mask`, `compose_full_mask`   masks with one value everywhere;
* `Blend.PathsAgree`        all of it, and `blend_paths_agree`.
-/

namespace HueSaturation

open Binary32

/-! ## factors of one -/

namespace Binary32

variable {x : Float32}

theorem eq_of_val_of_zero {y : Float32} (hx : x.isFinite) (hy : y.isFinite) (h1 : val y = val x)
    (h2 : x = 0.0 ∨ x = -0.0 → y = x) : y = x := by
  by_cases h0 : val x = 0
  · exact h2 (zero_cases hx h0)
  · exact eq_of_val hy hx h1 (by rw [h1]; exact h0)

theorem mul_one_eq (hx : x.isFinite) : x * 1.0 = x := by
  obtain ⟨h1, h2⟩ := mul_one_right hx finite_literal_one.1 val_one
  refine eq_of_val_of_zero hx h1 h2 ?_
  rintro (rfl | rfl)
  · decide +kernel
  · decide +kernel

theorem one_mul_eq (hx : x.isFinite) : 1.0 * x = x := by
  rw [mul_swap, mul_one_eq hx]

end Binary32

/-! ## the ends of the interpolation -/

theorem mix_of_one_le {amount : Float32} (h : (1.0 : Float32) ≤ amount) (b x : Float32) :
    mix b x amount = x :=
  if_pos h

theorem mix_of_le_zero {amount : Float32} (ha : InUnit amount) (h : amount ≤ (0.0 : Float32))
    (b x : Float32) : mix b x amount = b := by
  have h1 := (le_iff ha.1 rfl).1 h
  rw [val_zero] at h1
  have h2 : ¬ (1.0 : Float32) ≤ amount := by
    rw [le_iff finite_literal_one.1 ha.1, val_one]
    linarith
  rw [mix, if_neg h2, if_pos h]

/-! ## a front that is the back -/

theorem mix_self {b amount : Float32} (hb : b.isFinite) (ha : amount.isFinite) :
    (mix b b amount).isFinite ∧ val (mix b b amount) = val b := by
  unfold mix
  split
  · exact ⟨hb, rfl⟩
  split
  · exact ⟨hb, rfl⟩
  obtain ⟨h1, h2⟩ := sub_self_val hb hb rfl
  obtain ⟨h3, h4⟩ := mul_zero_right ha h1 h2
  exact add_zero_right hb h3 h4

namespace Blend

theorem pixel_of_one_le {amount : Float32} (h : (1.0 : Float32) ≤ amount) (mode : BlendMode)
    (b f : Rgb Float32) : pixel mode amount b f = f.zip mode.channel b := by
  rw [pixel, Rgb.zip, Rgb.zip]
  simp only [mix_of_one_le h]

theorem pixel_of_le_zero {amount : Float32} (ha : InUnit amount) (h : amount ≤ (0.0 : Float32))
    (mode : BlendMode) (b f : Rgb Float32) : pixel mode amount b f = b := by
  rw [pixel, Rgb.zip]
  simp only [mix_of_le_zero ha h]

/-! ## amounts -/

theorem amount_cases {s : Blend} {size : Size} {x y : Nat} {amount : Float32}
    (h : (s.amounts size).at? x y = some amount) :
    amount = s.effectiveOpacity ∨ ∃ m, amount = s.effectiveOpacity * Scalar.unit m := by
  unfold amounts at h
  cases hm : s.mask with
  | none =>
    rw [hm] at h
    by_cases hin : x < size.width.toNat ∧ y < size.height.toNat
    · left
      exact Option.some.inj (h.symm.trans (Image.at?_fill size _ hin.1 hin.2))
    · exact absurd (h.symm.trans (Image.at?_of_not_lt _ hin)) (Option.some_ne_none _)
  | some mask =>
    rw [hm] at h
    obtain ⟨m, -, hm⟩ := Option.map_eq_some_iff.mp ((Image.at?_map _ mask x y).symm.trans h)
    exact .inr ⟨m, hm.symm⟩

/-- Between nothing and all of the front shows, whatever the opacity and the mask are. -/
theorem inUnit_amount {s : Blend} {size : Size} {x y : Nat} {amount : Float32}
    (h : (s.amounts size).at? x y = some amount) : InUnit amount := by
  have hopacity : InUnit s.effectiveOpacity := inUnit_unit s.opacity
  rcases amount_cases h with rfl | ⟨m, rfl⟩
  · exact hopacity
  · exact inUnit_mul hopacity (inUnit_unit m)

theorem amount_of_transparent {s : Blend} (hs : s.isTransparent = true) {size : Size} {x y : Nat}
    {amount : Float32} (h : (s.amounts size).at? x y = some amount) :
    amount ≤ (0.0 : Float32) := by
  have hopacity : InUnit s.effectiveOpacity := inUnit_unit s.opacity
  have hle : s.effectiveOpacity ≤ (0.0 : Float32) := of_decide_eq_true hs
  rcases amount_cases h with rfl | ⟨m, rfl⟩
  · exact hle
  · have hzero : val s.effectiveOpacity = 0 :=
      le_antisymm ((le_iff hopacity.1 rfl).1 hle) hopacity.2.1
    obtain ⟨h1, h2⟩ := mul_zero_left hopacity.1 (inUnit_unit m).1 hzero
    rw [le_iff h1 rfl, h2, val_zero]

/-! ## the pixels of a composition -/

variable {s t : Blend} {back front : RgbImage}

theorem exists_at?_result (s : Blend) (hf : front.toSize = back.toSize) (hs : s.Fits back.toSize)
    {x y : Nat} (hx : x < back.width.toNat) (hy : y < back.height.toNat) :
    ∃ b f amount, back.at? x y = some b ∧ front.at? x y = some f ∧
      (s.amounts back.toSize).at? x y = some amount ∧ InUnit amount ∧
      (s.result back front hf hs).at? x y = some (pixel s.mode amount b f) := by
  have hfx : x < front.width.toNat := by rw [hf]; exact hx
  have hfy : y < front.height.toNat := by rw [hf]; exact hy
  have hax : x < (s.amounts back.toSize).width.toNat := by rw [toSize_amounts hs]; exact hx
  have hay : y < (s.amounts back.toSize).height.toNat := by rw [toSize_amounts hs]; exact hy
  have hb := back.at?_of_lt hx hy
  have hfront := front.at?_of_lt hfx hfy
  have ha := (s.amounts back.toSize).at?_of_lt hax hay
  refine ⟨_, _, _, hb, hfront, ha, inUnit_amount ha, ?_⟩
  rw [at?_result s back front hf hs hx hy, hb, hfront, ha]
  rfl

theorem result_of_transparent (h : s.isTransparent = true) (hf : front.toSize = back.toSize)
    (hs : s.Fits back.toSize) : s.result back front hf hs = back := by
  refine Image.ext_at? rfl fun x y hx hy => ?_
  obtain ⟨b, f, amount, hb, -, ha, hunit, hout⟩ := s.exists_at?_result hf hs hx hy
  rw [hout, hb, pixel_of_le_zero hunit (amount_of_transparent h ha)]

/-- The mode and the amounts are all that a composition takes from `s`. -/
theorem result_congr (hmode : s.mode = t.mode)
    (ha : s.amounts back.toSize = t.amounts back.toSize) (hf : front.toSize = back.toSize)
    (hs : s.Fits back.toSize) (ht : t.Fits back.toSize) :
    s.result back front hf hs = t.result back front hf ht := by
  refine Image.ext_at? rfl fun x y hx hy => ?_
  have hx' : x < back.width.toNat := hx
  have hy' : y < back.height.toNat := hy
  rw [at?_result s back front hf hs hx' hy', at?_result t back front hf ht hx' hy', hmode, ha]

theorem compose_of_ne (hf : front.toSize ≠ back.toSize) :
    s.compose back front = .error (.sizesDiffer back.toSize front.toSize) :=
  dif_neg hf

theorem compose_congr (hmode : s.mode = t.mode)
    (ha : s.amounts back.toSize = t.amounts back.toSize) (hs : s.Fits back.toSize)
    (ht : t.Fits back.toSize) : s.compose back front = t.compose back front := by
  by_cases hf : front.toSize = back.toSize
  · rw [compose_eq_result s back front hf hs, compose_eq_result t back front hf ht,
      result_congr hmode ha hf hs ht]
  · rw [compose_of_ne hf, compose_of_ne hf]

/-! ## masks of one value -/

theorem fits_none (opacity : Float32) (mode : BlendMode) (size : Size) :
    Fits ⟨opacity, none, mode⟩ size := by
  intro mask hmask
  cases hmask

theorem fits_fill (opacity m : Float32) (mode : BlendMode) (size : Size) :
    Fits ⟨opacity, some (.fill size m), mode⟩ size := by
  intro mask hmask
  rw [← Option.some.inj hmask]
  rfl

theorem map_fill {π ρ : Type} (f : π → ρ) (size : Size) (p : π) :
    (Image.fill size p).map f = .fill size (f p) :=
  congrArg (Image.mk size) Vector.map_replicate

theorem amounts_fill (opacity m : Float32) (mode : BlendMode) (size : Size) :
    amounts ⟨opacity, some (.fill size m), mode⟩ size
      = .fill size (Scalar.unit opacity * Scalar.unit m) :=
  map_fill _ size m

/-- A mask with one value everywhere does what an opacity of that value does. -/
theorem compose_constant_mask (o : Float32) (mode : BlendMode) (back front : RgbImage) :
    compose ⟨1.0, some (.fill back.toSize o), mode⟩ back front
      = compose ⟨o, none, mode⟩ back front := by
  refine compose_congr rfl ?_ (fits_fill _ _ _ _) (fits_none _ _ _)
  rw [amounts_fill, unit_of_inUnit inUnit_one, one_mul_eq (inUnit_unit o).1]
  rfl

theorem compose_full_mask (o : Float32) {m : Float32} (hm : (1.0 : Float32) ≤ m)
    (mode : BlendMode) (back front : RgbImage) :
    compose ⟨o, some (.fill back.toSize m), mode⟩ back front
      = compose ⟨o, none, mode⟩ back front := by
  refine compose_congr rfl ?_ (fits_fill _ _ _ _) (fits_none _ _ _)
  rw [amounts_fill, unit_of_one_le hm, mul_one_eq (inUnit_unit o).1]
  rfl

/-! ## success -/

theorem compose_of_mask_ne {mask : Mask} (hf : front.toSize = back.toSize)
    (hm : s.mask = some mask) (h : mask.toSize ≠ back.toSize) :
    s.compose back front = .error (.sizesDiffer back.toSize mask.toSize) := by
  obtain ⟨opacity, _, mode⟩ := s
  obtain rfl : _ = some mask := hm
  exact (dif_pos hf).trans (dif_neg h)

theorem compose_eq_ok_iff {out : RgbImage} : s.compose back front = .ok out ↔
    ∃ (hf : front.toSize = back.toSize) (hs : s.Fits back.toSize),
      s.result back front hf hs = out := by
  constructor
  · intro h
    by_cases hf : front.toSize = back.toSize
    · rcases s.fits_or_ne back.toSize with hs | ⟨mask, hm, hne⟩
      · rw [compose_eq_result s back front hf hs] at h
        exact ⟨hf, hs, Except.ok.inj h⟩
      · rw [compose_of_mask_ne hf hm hne] at h
        cases h
    · rw [compose_of_ne hf] at h
      cases h
  · rintro ⟨hf, hs, rfl⟩
    exact compose_eq_result s back front hf hs

end Blend

namespace Host

variable {s : Blend} {back front : RgbImage}

/-- The short cut changes nothing. -/
theorem composed_eq_result (hf : front.toSize = back.toSize) (hs : s.Fits back.toSize) :
    composed s back front hf hs = s.result back front hf hs := by
  unfold composed
  split
  · next h => exact (Blend.result_of_transparent h hf hs).symm
  · rfl

theorem reference_compose_eq (hs : s.Fits back.toSize) :
    reference.compose back front s = s.compose back front := by
  by_cases hf : front.toSize = back.toSize
  · rw [reference_compose s back front hf hs, composed_eq_result hf hs,
      Blend.compose_eq_result s back front hf hs]
  -- the short cut is not taken where the sizes differ, so both refuse alike
  · rw [compose, Blend.checkMask_of_fits hs]
    show (if s.isTransparent && decide (back.toSize = front.toSize) then Except.ok back
      else s.compose back front) = _
    rw [decide_eq_false (Ne.symm hf), Bool.and_false]
    rfl

theorem reference_compose_eq_ok_iff {out : RgbImage} : reference.compose back front s = .ok out ↔
    s.compose back front = .ok out := by
  rcases s.fits_or_ne back.toSize with hs | ⟨mask, hm, hne⟩
  · rw [reference_compose_eq hs]
  · rw [reference_compose_of_ne hm hne, Blend.compose_eq_ok_iff]
    constructor
    · intro h
      cases h
    · rintro ⟨-, hs, -⟩
      exact absurd (hs mask hm) hne

end Host

/-! ## the law -/

/-- No way of composing `front` over `back` can be told from another one. -/
structure Blend.PathsAgree (s : Blend) (back front : RgbImage) : Prop where
  /-- The composition with its short cut gives what the primitive of the host gives. -/
  compose_iff_blend : ∀ out,
    Host.reference.compose back front s = .ok out ↔ Host.reference.blend back front s = .ok out
  /-- Only sizes that differ are refused. -/
  succeeds_iff : (∃ out, Host.reference.blend back front s = .ok out) ↔
    front.toSize = back.toSize ∧ ∀ mask, s.mask = some mask → mask.toSize = back.toSize
  /-- An opacity may be given by the mask. -/
  constant_mask : ∀ o, Host.reference.blend back front ⟨1.0, some (.fill back.toSize o), s.mode⟩
    = Host.reference.blend back front ⟨o, none, s.mode⟩
  full_mask : ∀ o m, (1.0 : Float32) ≤ m →
    Host.reference.blend back front ⟨o, some (.fill back.toSize m), s.mode⟩
      = Host.reference.blend back front ⟨o, none, s.mode⟩
  /-- Where nothing of the front shows the pixel is that of the back, where all of it shows it is
  the blended one. -/
  ends : ∀ out, Host.reference.blend back front s = .ok out → ∀ x y, x < back.width →
    y < back.height → ∃ b f amount, back.buffer.pixel? x y = some b ∧
      front.buffer.pixel? x y = some f ∧
      (s.amounts back.toSize).buffer.pixel? x y = some amount ∧
      (amount ≤ (0.0 : Float32) → out.buffer.pixel? x y = some b) ∧
      ((1.0 : Float32) ≤ amount → out.buffer.pixel? x y = some (f.zip s.mode.channel b))

theorem blend_paths_agree (s : Blend) (back front : RgbImage) : s.PathsAgree back front where
  compose_iff_blend _ := Host.reference_compose_eq_ok_iff
  succeeds_iff := by
    constructor
    · rintro ⟨out, hout⟩
      obtain ⟨hf, hs, -⟩ := Blend.compose_eq_ok_iff.mp hout
      exact ⟨hf, hs⟩
    · rintro ⟨hf, hs⟩
      exact ⟨_, Blend.compose_eq_result s back front hf hs⟩
  constant_mask o := Blend.compose_constant_mask o s.mode back front
  full_mask o _ hm := Blend.compose_full_mask o hm s.mode back front
  ends out hout x y hx hy := by
    obtain ⟨hf, hs, rfl⟩ := Blend.compose_eq_ok_iff.mp hout
    obtain ⟨b, f, amount, hb, hfront, ha, hunit, hpixel⟩ := s.exists_at?_result hf hs
      (UInt32.lt_iff_toNat_lt.mp hx) (UInt32.lt_iff_toNat_lt.mp hy)
    simp only [Image.pixel?_buffer]
    refine ⟨b, f, amount, hb, hfront, ha, fun h => ?_, fun h => ?_⟩
    · rw [hpixel, Blend.pixel_of_le_zero hunit h]
    · rw [hpixel, Blend.pixel_of_one_le h]

/-- Nothing of a front of "not a number" shows where the opacity is none, with an infinite mask or
without. -/
theorem blend_paths_of_poisoned_front :
    let s : Blend := ⟨0.0 / 0.0, none, .multiply⟩
    let back : RgbImage := .fill ⟨1, 1⟩ ⟨-0.0, 0.5, 1.0⟩
    let front : RgbImage := .fill ⟨1, 1⟩ (.gray (0.0 / 0.0))
    Host.reference.blend back front s = .ok back ∧ (1.0 : Float32) ≤ 1.0 / 0.0 ∧
      Host.reference.blend back front ⟨0.0 / 0.0, some (.fill ⟨1, 1⟩ (1.0 / 0.0)), .multiply⟩
        = .ok back := by
  intro s back front
  have hlaw := blend_paths_agree s back front
  have hinfinite : (1.0 : Float32) ≤ 1.0 / 0.0 := by decide +kernel
  have hcompose : Host.reference.compose back front s = .ok back := by
    rw [Host.reference_compose s back front rfl (Blend.fits_none _ _ _)]
    exact congrArg Except.ok (if_pos (by decide +kernel))
  have hblend : Host.reference.blend back front s = .ok back :=
    (hlaw.compose_iff_blend back).mp hcompose
  exact ⟨hblend, hinfinite, (hlaw.full_mask _ _ hinfinite).trans hblend⟩

end HueSaturation
