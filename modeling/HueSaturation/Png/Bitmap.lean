import HueSaturation.Raster.Image

/-!
# PNG images as bytes

Files are read and written by a library. What it hands over of an image, and what it takes, is a
size, what the samples are, and the bytes of the samples row by row: a sample of 16 bits is two
bytes, the high one first.

* `BitDepth`, `ColorType`     the samples that there are;
* `Bitmap`                    an image between the library and the program;
* `Depth`                     8 or 16 bits per sample: the depths that the program works on;
* `Depth.samples`, `bytes`    the samples of a list of bytes, and the bytes of a sample.
-/

namespace HueSaturation

/-- How many bits a sample has. -/
inductive BitDepth where
  | one
  | two
  | four
  | eight
  | sixteen
deriving DecidableEq, Repr

/-- What the samples of a pixel are. -/
inductive ColorType where
  | gray
  | grayAlpha
  | rgb
  | rgba
  | indexed
deriving DecidableEq, Repr

namespace ColorType

def channels : ColorType → Nat
  | gray | indexed => 1
  | grayAlpha => 2
  | rgb => 3
  | rgba => 4

def name : ColorType → String
  | gray => "Grayscale"
  | grayAlpha => "GrayscaleAlpha"
  | rgb => "Rgb"
  | rgba => "Rgba"
  | indexed => "Indexed"

end ColorType

namespace BitDepth

def count : BitDepth → Nat
  | one => 1
  | two => 2
  | four => 4
  | eight => 8
  | sixteen => 16

def name : BitDepth → String
  | one => "One"
  | two => "Two"
  | four => "Four"
  | eight => "Eight"
  | sixteen => "Sixteen"

end BitDepth

/-- An image as the library hands it over and takes it. -/
structure Bitmap where
  size : Size
  color : ColorType
  bits : BitDepth
  bytes : Array UInt8
deriving DecidableEq, Repr

/-- The depths that are worked on. -/
inductive Depth where
  | eight
  | sixteen
deriving DecidableEq, Repr

namespace Depth

def bits : Depth → BitDepth
  | eight => .eight
  | sixteen => .sixteen

def ofBits? : BitDepth → Option Depth
  | .eight => some eight
  | .sixteen => some sixteen
  | .one | .two | .four => none

def max : Depth → UInt16
  | eight => 255
  | sixteen => 65535

/-- The sample of two bytes. -/
def word (high low : UInt8) : UInt16 :=
  high.toUInt16 * 256 + low.toUInt16

/-- The samples in a list of bytes. A single byte at the end is no sample of 16 bits. -/
def samples (d : Depth) (bytes : Array UInt8) : Array UInt16 :=
  match d with
  | eight => bytes.map UInt8.toUInt16
  | sixteen => (pairs bytes).map fun pair => word pair.1 pair.2

/-- The bytes of a sample, the high one first. -/
def bytes (d : Depth) (v : UInt16) : Array UInt8 :=
  match d with
  | eight => #[v.toUInt8]
  | sixteen => #[(v >>> 8).toUInt8, v.toUInt8]

end Depth
end HueSaturation
