import HueSaturation.Edit.Host
import HueSaturation.Proofs.Raster.Rows

/-!
# A composition is made pixel by pixel

* `Blend.Fits`        the mask, if there is one, has the size of the image;
* `Blend.amounts`     how much of the front shows at every pixel, masked or not;
* `Blend.result`      front over back by these amounts: what `compose` gives (`compose_eq_result`);
* `Blend.forTile_eq`  on a tile the amounts are those of the image, cut down to the tile;
* `Host.composed`     the composition with its short cut (`Host.reference_compose`), and
  `composed_cut`: composing the tiles is cutting the composition.
-/

namespace HueSaturation

namespace Image

variable {π : Type}

theorem at?_fill (size : Size) (p : π) {x y : Nat} (hx : x < size.width.toNat)
    (hy : y < size.height.toNat) : (fill size p).at? x y = some p := by
  rw [at?_of_lt (fill size p) hx hy]
  exact congrArg some (Vector.getElem_replicate _)

theorem cut_fill (size : Size) (p : π) (r : Region) (h : r.Inside size) :
    (fill size p).cut r h = fill r.toSize p := by
  refine ext_at? rfl fun x y hx hy => ?_
  have hx' : x < r.width.toNat := hx
  have hy' : y < r.height.toNat := hy
  have h1 := h.1
  have h2 := h.2
  rw [at?_cut (fill size p) r h hx' hy', at?_fill size p (by omega) (by omega),
    at?_fill r.toSize p hx' hy']

end Image

namespace Blend

/-! ## the amounts of a composition -/

def Fits (s : Blend) (size : Size) : Prop :=
  ∀ mask, s.mask = some mask → mask.toSize = size

theorem fits_or_ne (s : Blend) (size : Size) :
    s.Fits size ∨ ∃ mask, s.mask = some mask ∧ mask.toSize ≠ size := by
  by_cases h : s.Fits size
  · exact .inl h
  · unfold Fits at h
    rw [Classical.not_forall] at h
    obtain ⟨mask, h⟩ := h
    exact .inr ⟨mask, Classical.not_imp.mp h⟩

theorem checkMask_of_fits {s : Blend} {size : Size} (h : s.Fits size) :
    s.checkMask size = .ok () := by
  unfold checkMask
  cases hm : s.mask with
  | none => rfl
  | some mask => exact if_pos (h mask hm)

theorem checkMask_of_ne {s : Blend} {size : Size} {mask : Mask} (hm : s.mask = some mask)
    (h : mask.toSize ≠ size) : s.checkMask size = .error (.sizesDiffer size mask.toSize) := by
  unfold checkMask
  rw [hm]
  exact if_neg h

/-- How much of the front shows at every pixel. -/
def amounts (s : Blend) (size : Size) : Image Float32 :=
  match s.mask with
  | some mask => mask.map fun m => s.effectiveOpacity * Scalar.unit m
  | none => Image.fill size s.effectiveOpacity

theorem toSize_amounts {s : Blend} {size : Size} (h : s.Fits size) :
    (s.amounts size).toSize = size := by
  unfold amounts
  cases hm : s.mask with
  | none => rfl
  | some mask => exact h mask hm

/-- The part of the mask that travels with a tile gives the amounts of that tile. -/
theorem forTile_eq {s : Blend} {size : Size} (hs : s.Fits size) {r : Region} (h : r.Inside size)
    (h' : r.Inside (s.amounts size).toSize) :
    ∃ t : Blend, s.forTile r = .ok t ∧ t.opacity = s.opacity ∧ t.mode = s.mode ∧
      t.Fits r.toSize ∧ t.amounts r.toSize = (s.amounts size).cut r h' := by
  obtain ⟨opacity, mask, mode⟩ := s
  cases mask with
  | none =>
    refine ⟨_, rfl, rfl, rfl, fun mask hm => by simp at hm, ?_⟩
    exact (Image.cut_fill size _ r h).symm
  | some mask =>
    have hsize : mask.toSize = size := hs mask rfl
    have hin : r.Inside mask.toSize := by rw [hsize]; exact h
    refine ⟨⟨opacity, some (mask.cut r hin), mode⟩, ?_, rfl, rfl, fun m hm => ?_, ?_⟩
    · show (mask.buffer.crop r >>= fun m => m.image >>= fun m =>
        pure (Blend.mk opacity (some m) mode)) = _
      rw [Image.crop_eq_cut mask hin]
      show ((mask.cut r hin).buffer.image >>= _) = _
      rw [Image.image_buffer]
      rfl
    · rw [← Option.some.inj hm]
      rfl
    · exact (Image.cut_map _ mask r hin).symm

/-! ## front over back -/

/-- Front over back by the amounts of the composition. -/
def result (s : Blend) (back front : RgbImage) (hf : front.toSize = back.toSize)
    (hs : s.Fits back.toSize) : RgbImage :=
  (back.zip Prod.mk front hf).zip (fun (b, f) amount => pixel s.mode amount b f)
    (s.amounts back.toSize) (toSize_amounts hs)

theorem at?_result (s : Blend) (back front : RgbImage) (hf : front.toSize = back.toSize)
    (hs : s.Fits back.toSize) {x y : Nat} (hx : x < back.width.toNat) (hy : y < back.height.toNat) :
    (s.result back front hf hs).at? x y = (back.at? x y).bind fun b => (front.at? x y).bind fun f =>
      ((s.amounts back.toSize).at? x y).map fun amount => pixel s.mode amount b f := by
  have h1 := Image.at?_zip Prod.mk back front hf hx hy
  have h2 := Image.at?_zip (fun (b, f) amount => pixel s.mode amount b f)
    (back.zip Prod.mk front hf) (s.amounts back.toSize) (toSize_amounts hs) hx hy
  refine h2.trans ?_
  rw [h1]
  cases back.at? x y with
  | none => rfl
  | some b => cases front.at? x y <;> rfl

theorem compose_eq_result (s : Blend) (back front : RgbImage) (hf : front.toSize = back.toSize)
    (hs : s.Fits back.toSize) : s.compose back front = .ok (s.result back front hf hs) := by
  obtain ⟨opacity, mask, mode⟩ := s
  cases mask with
  | some mask => exact (dif_pos hf).trans (dif_pos (hs mask rfl))
  | none =>
    refine (dif_pos hf).trans (congrArg Except.ok ?_)
    refine Image.ext_at? rfl fun x y hx hy => ?_
    have hfill : (amounts ⟨opacity, none, mode⟩ back.toSize).at? x y
        = some (effectiveOpacity ⟨opacity, none, mode⟩) := Image.at?_fill back.toSize _ hx hy
    rw [at?_result _ back front hf hs hx hy, hfill]
    refine (Image.at?_zip _ back front hf hx hy).trans ?_
    cases back.at? x y with
    | none => rfl
    | some b => cases front.at? x y <;> rfl

theorem result_cut {s t : Blend} {back front : RgbImage} (hf : front.toSize = back.toSize)
    (hs : s.Fits back.toSize) {r : Region} (hb : r.Inside back.toSize) (hr : r.Inside front.toSize)
    (hf' : (front.cut r hr).toSize = (back.cut r hb).toSize) (ht : t.Fits (back.cut r hb).toSize)
    (ha' : r.Inside (s.amounts back.toSize).toSize) (hmode : t.mode = s.mode)
    (ha : t.amounts (back.cut r hb).toSize = (s.amounts back.toSize).cut r ha')
    (h : r.Inside (s.result back front hf hs).toSize) :
    t.result (back.cut r hb) (front.cut r hr) hf' ht = (s.result back front hf hs).cut r h := by
  refine Image.ext_at? rfl fun x y hx hy => ?_
  have hx' : x < r.width.toNat := hx
  have hy' : y < r.height.toNat := hy
  have h1 := hb.1
  have h2 := hb.2
  rw [at?_result t _ _ hf' ht hx' hy', Image.at?_cut back r hb hx' hy',
    Image.at?_cut front r hr hx' hy', Image.at?_cut (s.result back front hf hs) r h hx' hy',
    at?_result s back front hf hs (by omega) (by omega), hmode, ha,
    Image.at?_cut _ r ha' hx' hy']

end Blend

namespace Host

/-- The composition of the reference host: the back where nothing of the front shows. -/
def composed (s : Blend) (back front : RgbImage) (hf : front.toSize = back.toSize)
    (hs : s.Fits back.toSize) : RgbImage :=
  if s.isTransparent then back else s.result back front hf hs

theorem toSize_composed (s : Blend) (back front : RgbImage) (hf : front.toSize = back.toSize)
    (hs : s.Fits back.toSize) : (composed s back front hf hs).toSize = back.toSize := by
  unfold composed
  split <;> rfl

theorem reference_compose (s : Blend) (back front : RgbImage) (hf : front.toSize = back.toSize)
    (hs : s.Fits back.toSize) :
    reference.compose back front s = .ok (composed s back front hf hs) := by
  rw [compose, Blend.checkMask_of_fits hs]
  show (if s.isTransparent && decide (back.toSize = front.toSize) then Except.ok back
    else s.compose back front) = _
  rw [Blend.compose_eq_result s back front hf hs, decide_eq_true hf.symm, Bool.and_true, composed]
  split <;> rfl

theorem reference_compose_of_ne {s : Blend} {back front : RgbImage} {mask : Mask}
    (hm : s.mask = some mask) (h : mask.toSize ≠ back.toSize) :
    reference.compose back front s = .error (.sizesDiffer back.toSize mask.toSize) := by
  rw [compose, Blend.checkMask_of_ne hm h]
  rfl

/-- Composing the tiles of two images is cutting their composition. -/
theorem composed_cut {s : Blend} {back front : RgbImage} (hf : front.toSize = back.toSize)
    (hs : s.Fits back.toSize) {r : Region} (hb : r.Inside back.toSize) (hr : r.Inside front.toSize)
    (hf' : (front.cut r hr).toSize = (back.cut r hb).toSize)
    (h : r.Inside (composed s back front hf hs).toSize) :
    ∃ t, s.forTile r = .ok t ∧ ∃ ht : t.Fits (back.cut r hb).toSize,
      composed t (back.cut r hb) (front.cut r hr) hf' ht
        = (composed s back front hf hs).cut r h := by
  have ha' : r.Inside (s.amounts back.toSize).toSize := by
    rw [Blend.toSize_amounts hs]
    exact hb
  obtain ⟨t, htile, hopacity, hmode, ht, ha⟩ := Blend.forTile_eq hs hb ha'
  refine ⟨t, htile, ht, ?_⟩
  have htrans : t.isTransparent = s.isTransparent := by
    rw [Blend.isTransparent, Blend.isTransparent, Blend.effectiveOpacity, Blend.effectiveOpacity,
      hopacity]
  cases hc : s.isTransparent with
  | true =>
    have h1 : composed t (back.cut r hb) (front.cut r hr) hf' ht = back.cut r hb :=
      if_pos (htrans.trans hc)
    have h2 : composed s back front hf hs = back := if_pos hc
    rw [h1]
    congr 1
    exact h2.symm
  | false =>
    have h1 : composed t (back.cut r hb) (front.cut r hr) hf' ht
        = t.result (back.cut r hb) (front.cut r hr) hf' ht :=
      if_neg (by rw [htrans, hc]; exact Bool.false_ne_true)
    have h2 : composed s back front hf hs = s.result back front hf hs :=
      if_neg (by rw [hc]; exact Bool.false_ne_true)
    rw [h1, Blend.result_cut hf hs hb hr hf' ht ha' hmode ha hb]
    congr 1
    exact h2.symm

end Host
end HueSaturation
