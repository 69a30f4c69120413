import HueSaturation.Edit.Adjustment
import HueSaturation.Proofs.Blend.Local
import HueSaturation.Proofs.Raster.Stitching

/-!
# A render tile by tile is the render at once

* `Pipeline.frontPixel`   what all stages make of one pixel: the front image is this map
                          (`front_reference`);
* `Pipeline.rendered`     the render at once where the mask fits (`render_reference`);
* `Pipeline.rendered_cut` rendering a tile is cutting the render;
* `Agreement`             what the two ways of rendering have to do with each other: one result for
                          every edge of the tiles, the same error for a mask of another size;
* `render_agreement`      every pipeline has it, so every adjustment has it.
-/

namespace HueSaturation

/-! ## the front is made pixel by pixel -/

def BandMatrix.combinePixel (m : BandMatrix Float32) (p : Rgb Float32) : Rgb Float32 :=
  if m.isIdentity then p else (m.apply p).unit

theorem BandMatrix.combine_eq_map (m : BandMatrix Float32) (img : RgbImage) :
    m.combine img = img.map m.combinePixel := by
  unfold combine
  split
  · next h => exact (Image.map_of_forall_eq (fun p => if_pos h) img).symm
  · next h => exact congrArg img.map (funext fun p => (if_neg h).symm)

def Vibrance.stagePixel (s : Vibrance Float32) (fns : Elementary Float32) (p : Rgb Float32) :
    Rgb Float32 :=
  if s.isIdentity then p else s.applyPixel fns p

theorem Vibrance.apply_eq_map (s : Vibrance Float32) (fns : Elementary Float32) (img : RgbImage) :
    s.apply fns img = img.map (s.stagePixel fns) := by
  unfold apply
  split
  · next h => exact (Image.map_of_forall_eq (fun p => if_pos h) img).symm
  · next h => exact congrArg img.map (funext fun p => (if_neg h).symm)

theorem HueRotation.apply_eq_map (s : HueRotation Float32) (fns : Elementary Float32)
    (img : RgbImage) : s.apply fns img = img.map (s.applyPixel fns) := by
  unfold apply
  split
  · next h => exact (Image.map_of_forall_eq (fun p => if_pos h) img).symm
  · rfl

namespace Pipeline

/-- What all stages make of one pixel. -/
def frontPixel (p : Pipeline Float32) (fns : Elementary Float32) (q : Rgb Float32) :
    Rgb Float32 :=
  let q := p.band.combinePixel q
  let q := p.vibrance.elim q (·.stagePixel fns q)
  p.hue.elim q (·.applyPixel fns q)

theorem afterMatrix_eq_map (p : Pipeline Float32) (fns : Elementary Float32) (img : RgbImage) :
    p.afterMatrix fns (p.band.combine img) = img.map (p.frontPixel fns) := by
  rw [BandMatrix.combine_eq_map]
  unfold afterMatrix frontPixel
  cases p.vibrance with
  | none =>
    cases p.hue with
    | none => rfl
    | some h => exact (h.apply_eq_map fns _).trans (Image.map_map _ _ img)
  | some v =>
    have hv : v.apply fns (img.map p.band.combinePixel)
        = img.map fun q => v.stagePixel fns (p.band.combinePixel q) :=
      (v.apply_eq_map fns _).trans (Image.map_map _ _ img)
    cases p.hue with
    | none => exact hv
    | some h =>
      show h.apply fns (v.apply fns (img.map p.band.combinePixel)) = _
      rw [hv]
      exact (h.apply_eq_map fns _).trans (Image.map_map _ _ img)

theorem front_reference (p : Pipeline Float32) (fns : Elementary Float32) (back : RgbImage) :
    p.front fns .reference back = .ok (back.map (p.frontPixel fns)) := by
  rw [← afterMatrix_eq_map]
  rfl

/-- The front of a pipeline that calls itself the identity is the back. -/
theorem frontPixel_of_isIdentity {l : Pipeline Float32} (h : l.isIdentity = true)
    (fns : Elementary Float32) (p : Rgb Float32) : l.frontPixel fns p = p := by
  rw [isIdentity, Bool.and_eq_true, Bool.and_eq_true] at h
  obtain ⟨⟨hband, hvibrance⟩, hhue⟩ := h
  rw [frontPixel, Option.isNone_iff_eq_none.1 hvibrance, Option.isNone_iff_eq_none.1 hhue]
  exact if_pos hband

theorem front_of_isIdentity {l : Pipeline Float32} (h : l.isIdentity = true)
    (fns : Elementary Float32) (back : RgbImage) : l.front fns .reference back = .ok back := by
  rw [front_reference, Image.map_of_forall_eq (frontPixel_of_isIdentity h fns)]

/-! ## the render at once -/

/-- The render at once where the mask fits. -/
def rendered (p : Pipeline Float32) (fns : Elementary Float32) (back : RgbImage) (s : Blend)
    (hs : s.Fits back.toSize) : RgbImage :=
  Host.composed s back (back.map (p.frontPixel fns)) (Image.toSize_map _ back) hs

theorem toSize_rendered (p : Pipeline Float32) (fns : Elementary Float32) (back : RgbImage)
    (s : Blend) (hs : s.Fits back.toSize) : (p.rendered fns back s hs).toSize = back.toSize :=
  Host.toSize_composed s back _ (Image.toSize_map _ back) hs

theorem render_eq_compose (p : Pipeline Float32) (fns : Elementary Float32) (back : RgbImage)
    (s : Blend) : p.render fns .reference back s
      = Host.reference.compose back (back.map (p.frontPixel fns)) s := by
  rw [render, front_reference]
  rfl

theorem render_reference (p : Pipeline Float32) (fns : Elementary Float32) (back : RgbImage)
    (s : Blend) (hs : s.Fits back.toSize) :
    p.render fns .reference back s = .ok (p.rendered fns back s hs) := by
  rw [render_eq_compose]
  exact Host.reference_compose s back _ (Image.toSize_map _ back) hs

theorem render_reference_of_ne (p : Pipeline Float32) (fns : Elementary Float32) {back : RgbImage}
    {s : Blend} {mask : Mask} (hm : s.mask = some mask) (h : mask.toSize ≠ back.toSize) :
    p.render fns .reference back s = .error (.sizesDiffer back.toSize mask.toSize) := by
  rw [render_eq_compose]
  exact Host.reference_compose_of_ne hm h

/-- **Rendering a tile is cutting the render**, the composition being that of the tile. -/
theorem rendered_cut (p : Pipeline Float32) (fns : Elementary Float32) {back : RgbImage} {s : Blend}
    (hs : s.Fits back.toSize) {r : Region} (h : r.Inside back.toSize)
    (h' : r.Inside (p.rendered fns back s hs).toSize) :
    ∃ t, s.forTile r = .ok t ∧
      p.render fns .reference (back.cut r h) t = .ok ((p.rendered fns back s hs).cut r h') := by
  obtain ⟨t, htile, ht, hcut⟩ :=
    Host.composed_cut (Image.toSize_map (p.frontPixel fns) back) hs h h rfl h'
  refine ⟨t, htile, ?_⟩
  rw [render_reference p fns _ t ht]
  refine congrArg Except.ok (Eq.trans ?_ hcut)
  unfold rendered
  congr 1
  exact (Image.cut_map _ back r h).symm

/-! ## tile by tile -/

theorem renderTiled_eq_rendered (p : Pipeline Float32) (fns : Elementary Float32) {back : RgbImage}
    {s : Blend} (hs : s.Fits back.toSize) {edge : UInt32} (he : edge ≠ 0) :
    p.renderTiled fns .reference back s edge = .ok (p.rendered fns back s hs) := by
  rw [renderTiled, Blend.checkMask_of_fits hs]
  refine Image.renderTiled_of_cut he (toSize_rendered p fns back s hs) fun r h => ?_
  obtain ⟨t, htile, hcut⟩ := rendered_cut p fns hs h (toSize_rendered p fns back s hs ▸ h)
  rw [htile]
  show (p.render fns .reference (back.cut r h) t).mapError Failure.refused = _
  rw [hcut]
  rfl

theorem renderTiled_of_ne (p : Pipeline Float32) (fns : Elementary Float32) {back : RgbImage}
    {s : Blend} {mask : Mask} (hm : s.mask = some mask) (h : mask.toSize ≠ back.toSize)
    (edge : UInt32) :
    p.renderTiled fns .reference back s edge
      = .error (.refused (.sizesDiffer back.toSize mask.toSize)) := by
  rw [renderTiled, Blend.checkMask_of_ne hm h]
  rfl

theorem renderTiled_zero (p : Pipeline Float32) (fns : Elementary Float32) {back : RgbImage}
    {s : Blend} (hs : s.Fits back.toSize) :
    p.renderTiled fns .reference back s 0 = .error (.refused .emptyTiles) := by
  rw [renderTiled, Blend.checkMask_of_fits hs]
  rfl

end Pipeline

/-- What a render at once and the renders tile by tile, one for every edge of the tiles, have to do
with each other. -/
structure Agreement (back : RgbImage) (s : Blend) (single : Except RasterError RgbImage)
    (tiled : UInt32 → Except (Failure RasterError) RgbImage) : Prop where
  /-- the edge of the tiles does not show -/
  tiled_eq_single : ∀ edge, edge ≠ 0 → tiled edge = single.mapError .refused
  /-- a mask of another size fails, with the two sizes in this order -/
  mask_differs : ∀ mask, s.mask = some mask → mask.toSize ≠ back.toSize →
    single = .error (.sizesDiffer back.toSize mask.toSize) ∧
      ∀ edge, tiled edge = .error (.refused (.sizesDiffer back.toSize mask.toSize))
  /-- everything else succeeds, in the size of the back -/
  mask_fits : s.Fits back.toSize → ∃ out, single = .ok out ∧ out.toSize = back.toSize
  /-- tiles of no pixels are refused -/
  edge_zero : s.Fits back.toSize → tiled 0 = .error (.refused .emptyTiles)

theorem render_agreement (p : Pipeline Float32) (fns : Elementary Float32) (back : RgbImage)
    (s : Blend) : Agreement back s (p.render fns .reference back s)
      fun edge => p.renderTiled fns .reference back s edge where
  tiled_eq_single edge he := by
    rcases s.fits_or_ne back.toSize with hs | ⟨mask, hm, h⟩
    · rw [Pipeline.renderTiled_eq_rendered p fns hs he, Pipeline.render_reference p fns back s hs]
      rfl
    · rw [Pipeline.renderTiled_of_ne p fns hm h, Pipeline.render_reference_of_ne p fns hm h]
      rfl
  mask_differs mask hm h :=
    ⟨Pipeline.render_reference_of_ne p fns hm h, Pipeline.renderTiled_of_ne p fns hm h⟩
  mask_fits hs := ⟨p.rendered fns back s hs, Pipeline.render_reference p fns back s hs,
    Pipeline.toSize_rendered p fns back s hs⟩
  edge_zero hs := Pipeline.renderTiled_zero p fns hs

/-- **A render tile by tile is the render at once**, for the pipeline of any settings and for an
adjustment in any state, whatever the elementary functions return. -/
theorem tiled_agrees_with_single_pass (fns : Library Float32) (back : RgbImage) (s : Blend) :
    (∀ settings, Agreement back s
      ((Pipeline.ofSettings fns settings).render fns .reference back s)
      fun edge => (Pipeline.ofSettings fns settings).renderTiled fns .reference back s edge) ∧
    (∀ a : Adjustment, Agreement back s (a.render fns .reference back s).1
      fun edge => (a.renderTiled fns .reference back s edge).1) :=
  ⟨fun settings => render_agreement (Pipeline.ofSettings fns settings) fns back s,
    fun a => render_agreement (a.pipeline fns).1.pipeline fns back s⟩

end HueSaturation
