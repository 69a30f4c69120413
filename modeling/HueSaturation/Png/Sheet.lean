import HueSaturation.Png.Bitmap

/-!
# What PNG files hold

* `Sheet`             the content of a file: also fewer than 8 bits, palettes and transparency;
* `Sheet.expand?`     the image that is handed over of it.
-/

namespace HueSaturation

/-- The content of a PNG file. -/
structure Sheet where
  size : Size
  color : ColorType
  /-- bits per sample: 1, 2, 4, 8 or 16 -/
  bits : Nat
  /-- row by row -/
  samples : Array UInt16
  /-- the colors that indices stand for -/
  palette : Array (Rgb UInt16)
  /-- of a palette: the alpha of each color; otherwise the bytes of the transparent color -/
  transparency : Option (Array UInt8)

namespace Sheet

def depth (s : Sheet) : Depth :=
  if s.bits = 16 then .sixteen else .eight

def sample (s : Sheet) (i c : Nat) : UInt16 :=
  s.samples.getD (i * s.color.channels + c) 0

/-- A sample of fewer than 8 bits spread over 8. -/
def spread (s : Sheet) (v : UInt16) : UInt16 :=
  if s.bits < 8 then (v.toNat * 255 / (Nat.pow 2 s.bits - 1)).toUInt16 else v

/-- The bytes of the transparent color of an image without a palette, if none is missing. -/
def key? (s : Sheet) : Option (Array UInt8) :=
  s.transparency.filter fun bytes => 2 * s.color.channels ≤ bytes.size

/-- The `c`-th sample of the transparent color: two bytes, of which images of up to 8 bits use the
lower one. -/
def transparent (s : Sheet) (bytes : Array UInt8) (c : Nat) : UInt16 :=
  let high := (bytes.getD (2 * c) 0).toUInt16
  let low := (bytes.getD (2 * c + 1) 0).toUInt16
  if s.bits = 16 then high * 256 + low else low

/-- The alpha of the `i`-th pixel: zero if all its samples are those of the transparent color. With
16 bits per sample a color that has more bytes than a pixel is no pixel's. -/
def keyAlpha (s : Sheet) (bytes : Array UInt8) (i : Nat) : UInt16 :=
  if (s.bits < 16 || bytes.size = 2 * s.color.channels)
    && (List.range s.color.channels).all fun c => s.sample i c = s.transparent bytes c then 0
  else s.depth.max

/-- The samples of the color of the `i`-th pixel. -/
def colorAt (s : Sheet) (i : Nat) : List UInt16 :=
  [s.sample i 0, s.sample i 1, s.sample i 2]

/-- The color an index stands for; black beyond the palette. -/
def paletteColor (s : Sheet) (i : Nat) : List UInt16 :=
  let color := s.palette.getD (s.sample i 0).toNat (.gray 0)
  [color.r, color.g, color.b]

/-- The alpha of an index; opaque beyond the given ones. More of them than the palette has colors do
not count at all. -/
def paletteAlpha (s : Sheet) (alphas : Array UInt8) (i : Nat) : UInt16 :=
  if alphas.size ≤ s.palette.size then (alphas.getD (s.sample i 0).toNat 255).toUInt16 else 255

/-- The color type after the expansion, and the samples of the `i`-th pixel. -/
def expansion (s : Sheet) : ColorType × (Nat → List UInt16) :=
  let gray (i : Nat) := s.spread (s.sample i 0)
  match s.color, s.key?, s.transparency with
  | .gray, none, _ => (.gray, fun i => [gray i])
  | .gray, some bytes, _ => (.grayAlpha, fun i => [gray i, s.keyAlpha bytes i])
  | .rgb, none, _ => (.rgb, s.colorAt)
  | .rgb, some bytes, _ => (.rgba, fun i => s.colorAt i ++ [s.keyAlpha bytes i])
  | .grayAlpha, _, _ => (.grayAlpha, fun i => [s.sample i 0, s.sample i 1])
  | .rgba, _, _ => (.rgba, fun i => s.colorAt i ++ [s.sample i 3])
  | .indexed, _, none => (.rgb, s.paletteColor)
  | .indexed, _, some alphas => (.rgba, fun i => s.paletteColor i ++ [s.paletteAlpha alphas i])

/-- What is handed over of a file: indices become colors, samples get 8 or 16 bits, a transparent
color becomes an alpha channel. `none` if samples are missing. -/
def expand? (s : Sheet) : Option Bitmap :=
  if s.samples.size = s.size.area * s.color.channels then
    let (color, pixel) := s.expansion
    let bytes := (Array.range s.size.area).flatMap fun i => (pixel i).toArray.flatMap s.depth.bytes
    some { size := s.size, color, bits := s.depth.bits, bytes }
  else none

end Sheet
end HueSaturation
