import HueSaturation.Blend.Mode
import HueSaturation.Raster.PixelBuffer

/-!
# Front over back

`output = back + amount * (mode(front, back) - back)`, where the amount is the opacity times
the mask.

* `Blend`                     opacity, mask and mode of a composition;
* `Blend.effectiveOpacity`, `isTransparent`   the opacity in `[0, 1]`, and whether it is zero;
* `Blend.checkMask`           the mask, if there is one, has the size of the image;
* `Blend.forTile`             the composition of one tile, with the mask cut down to it;
* `mix`                       the interpolation, exact at both ends;
* `Blend.compose`             the composition of two images.
-/

namespace HueSaturation

/-- How a front image is composed over its back image. -/
structure Blend where
  opacity : Float32 := 1.0
  mask : Option Mask := none
  mode : BlendMode := .normal

namespace Blend

/-- The opacity in `[0, 1]`; "not a number" is transparent. -/
def effectiveOpacity (s : Blend) : Float32 :=
  Scalar.unit s.opacity

def isTransparent (s : Blend) : Bool :=
  s.effectiveOpacity ≤ 0.0

def checkMask (s : Blend) (size : Size) : Except RasterError Unit :=
  match s.mask with
  | some mask => if mask.toSize = size then .ok () else .error (.sizesDiffer size mask.toSize)
  | none => .ok ()

/-- The composition of the tile `tile`: the mask travels as the part that covers it. -/
def forTile (s : Blend) (tile : Region) : Except (Failure RasterError) Blend :=
  match s.mask with
  | some mask => do return { s with mask := some (← (← mask.buffer.crop tile).image) }
  | none => .ok s

end Blend

/-- `back + amount * (blended - back)`, exact where the amount is `0` or less, or `1` or more. -/
def mix (back blended amount : Float32) : Float32 :=
  if 1.0 ≤ amount then blended
  else if amount ≤ 0.0 then back
  else back + amount * (blended - back)

namespace Blend

def pixel (mode : BlendMode) (amount : Float32) (back front : Rgb Float32) : Rgb Float32 :=
  back.zip (fun b f => mix b (mode.channel f b) amount) front

/-- The composition of `front` over `back`. Both images and the mask have to share one size. -/
def compose (s : Blend) (back front : RgbImage) : Except RasterError RgbImage :=
  if hf : front.toSize = back.toSize then
    let opacity := s.effectiveOpacity
    match s.mask with
    | some mask =>
      if hm : mask.toSize = back.toSize then
        let amounts := mask.map fun m => opacity * Scalar.unit m
        let pairs := back.zip Prod.mk front hf
        .ok (pairs.zip (fun (b, f) amount => pixel s.mode amount b f) amounts hm)
      else .error (.sizesDiffer back.toSize mask.toSize)
    | none => .ok (back.zip (pixel s.mode opacity) front hf)
  else .error (.sizesDiffer back.toSize front.toSize)

end Blend
end HueSaturation
