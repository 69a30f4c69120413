import HueSaturation.Png.Bitmap
import HueSaturation.Raster.PixelBuffer

/-!
# Pictures

A picture is a PNG image as the operator works on it: colors in `[0, 1]`, and the alpha channel kept
aside to be written back untouched.

* `Picture`               colors, alpha and depth;
* `Depth.normalize`, `quantize`   a sample as a number in `[0, 1]`, and back;
* `splitAlpha`, `joinAlpha`   pixels with alpha as colors and alpha, and back;
* `Picture.ofBitmap`      the picture of what was read; gray becomes three equal channels;
* `Picture.interleaved`   the numbers of a picture pixel by pixel, alpha after color;
* `Picture.toBitmap`      what is written of a picture.
-/

namespace HueSaturation

namespace Depth

def normalize (d : Depth) (v : UInt16) : Float32 :=
  v.toFloat32 / d.max.toFloat32

/-- The sample nearest to `x`, which is cut down to `[0, 1]` first. "Not a number" is zero. -/
def quantize (d : Depth) (x : Float32) : UInt16 :=
  (Binary32.round (Scalar.clamp 0.0 1.0 x * d.max.toFloat32)).toUInt16

end Depth

/-- A PNG image in numbers. -/
structure Picture where
  colors : RgbImage
  /-- one number per pixel -/
  alpha : Option (Array Float32)
  /-- the depth it was read with and is written with -/
  depth : Depth

/-- Why an image is not worked on, or not written. -/
inductive PictureError where
  | unsupportedDepth (bits : BitDepth)
  | unsupportedColor (color : ColorType)
  /-- the samples do not fit the size -/
  | badData (cause : RasterError)
  /-- alpha that does not fit the pixels -/
  | alphaCount (found pixels : Nat)
deriving DecidableEq, Repr

def PictureError.message : PictureError → String
  | unsupportedDepth bits => "unsupported bit depth " ++ bits.name
  | unsupportedColor color => "unsupported color type " ++ color.name
  | badData cause => cause.message
  | alphaCount found pixels =>
    "alpha has " ++ found.repr ++ " values for " ++ pixels.repr ++ " pixels"

def firstThree {α : Type} (px : Vector α (3 + 1)) : Vector α 3 :=
  #v[px[0], px[1], px[2]]

/-- The last of every `n + 1` elements. -/
def lasts {α : Type} (n : Nat) (xs : Array α) : Array α :=
  (chunks (n + 1) xs).map fun px => px.get (Fin.last n)

/-- The numbers of pixels with `n` channels and alpha, as colors and alpha. -/
def splitAlpha (n : Nat) (color : Vector Float32 (n + 1) → Vector Float32 3)
    (samples : Array Float32) : Array Float32 × Option (Array Float32) :=
  ((chunks (n + 1) samples).flatMap fun px => (color px).toArray, some (lasts n samples))

/-- The numbers of pixels, three of them each, with alpha behind each pixel. -/
def joinAlpha (data alpha : Array Float32) : Array Float32 :=
  ((chunks 3 data).zip alpha).flatMap fun px => (px.1.push px.2).toArray

/-- The numbers of an image as three to a pixel, and alpha if there is one. Indices are no
colors. -/
def ColorType.split? (color : ColorType) (samples : Array Float32) :
    Option (Array Float32 × Option (Array Float32)) :=
  match color with
  | rgb => some (samples, none)
  | rgba => some (splitAlpha 3 firstThree samples)
  | gray => some (samples.flatMap fun y => #[y, y, y], none)
  | grayAlpha => some (splitAlpha 1 (fun px => #v[px[0], px[0], px[0]]) samples)
  | indexed => none

namespace Picture

def ofBitmap (b : Bitmap) : Except (Failure PictureError) Picture :=
  match Depth.ofBits? b.bits with
  | none => .error (.refused (.unsupportedDepth b.bits))
  | some depth =>
    match b.color.split? ((depth.samples b.bytes).map depth.normalize) with
    | none => .error (.refused (.unsupportedColor b.color))
    | some (data, alpha) => do
      let colors ← (Image.ofData b.size data).mapError (·.map .badData)
      return { colors, alpha, depth }

/-- The numbers of a picture, pixel by pixel. There has to be one alpha for each pixel, if there is
any. -/
def interleaved (p : Picture) : Except PictureError (Array Float32) :=
  match p.alpha with
  | some alpha =>
    if alpha.size = p.colors.area then
      .ok (joinAlpha p.colors.data alpha)
    else .error (.alphaCount alpha.size p.colors.area)
  | none => .ok p.colors.data

def color (p : Picture) : ColorType :=
  if p.alpha.isSome then .rgba else .rgb

def toBitmap (p : Picture) : Except PictureError Bitmap := do
  let samples ← p.interleaved
  return {
    size := p.colors.toSize
    color := p.color
    bits := p.depth.bits
    bytes := samples.flatMap fun x => p.depth.bytes (p.depth.quantize x) }

end Picture
end HueSaturation
