import HueSaturation.Png.Deflate
import HueSaturation.Png.Scanlines
import HueSaturation.Png.Sheet

/-!
# PNG files

A file is eight fixed bytes and a run of chunks, each with its length, its kind and a checksum.

* `Chunk`               one chunk; `Chunk.bytes` writes it, `chunks?` reads all of a file;
* `Header`              the measures of the image; `Header.ofBytes?` takes the combinations that
                        there are;
* `Sheet.ofFile?`       what a file holds;
* `Bitmap.file`         a file that holds an image.
-/

namespace HueSaturation

open Deflate (wordAt wordBytes)

def pngSignature : List UInt8 :=
  [0x89, 0x50, 0x4e, 0x47, 0x0d, 0x0a, 0x1a, 0x0a]

structure Chunk where
  /-- four letters -/
  kind : String
  data : ByteArray

def Chunk.bytes (c : Chunk) : ByteArray :=
  let body := c.kind.toUTF8 ++ c.data
  wordBytes c.data.size.toUInt32 ++ body ++ wordBytes (Checksum.crc32 body)

/-- The chunks from `start` to the one that ends the file. -/
def chunksFrom? (bytes : ByteArray) (start : Nat) : Option (List Chunk) := do
  let stop := start + 8 + wordAt bytes start
  let body := bytes.extract (start + 4) stop
  if stop + 4 ≤ bytes.size ∧ (Checksum.crc32 body).toNat = wordAt bytes stop then
    let kind := String.ofList ((body.extract 0 4).toList.map fun b => Char.ofNat b.toNat)
    let chunk := Chunk.mk kind (body.extract 4 body.size)
    if kind = "IEND" then return [chunk] else return chunk :: (← chunksFrom? bytes (stop + 4))
  else none
termination_by bytes.size - start

def chunks? (bytes : ByteArray) : Option (List Chunk) := do
  guard ((bytes.extract 0 8).toList = pngSignature)
  chunksFrom? bytes 8

structure Header where
  size : Size
  color : ColorType
  bits : Nat
  /-- the pixels come in seven passes -/
  interlaced : Bool

namespace Header

/-- The color type of a number, and the bits that its samples may have. -/
def color? : UInt8 → Option (ColorType × List Nat)
  | 0 => some (.gray, [1, 2, 4, 8, 16])
  | 2 => some (.rgb, [8, 16])
  | 3 => some (.indexed, [1, 2, 4, 8])
  | 4 => some (.grayAlpha, [8, 16])
  | 6 => some (.rgba, [8, 16])
  | _ => none

/-- The header of thirteen bytes. Both sides of an image are at least one pixel. -/
def ofBytes? (b : ByteArray) : Option Header := do
  let [bits, color, method, filters, interlaced] := (b.extract 8 b.size).toList | failure
  let (color, depths) ← color? color
  let width := (wordAt b 0).toUInt32
  let height := (wordAt b 4).toUInt32
  guard (bits.toNat ∈ depths ∧ method = 0 ∧ filters = 0 ∧ interlaced ≤ 1 ∧ width ≠ 0 ∧ height ≠ 0)
  return ⟨⟨width, height⟩, color, bits.toNat, interlaced = 1⟩

def grid (h : Header) : Grid :=
  ⟨h.size.width.toNat, h.size.height.toNat, h.color.channels, h.bits⟩

def passes (h : Header) : List Pass :=
  if h.interlaced then Pass.seven else Pass.whole

end Header

namespace Sheet

/-- The colors of a palette, three bytes each. -/
def paletteOf (b : ByteArray) : Array (Rgb UInt16) :=
  (Array.range (b.size / 3)).map fun i =>
    let byte (k : Nat) := ((b[3 * i + k]?).getD 0).toUInt16
    ⟨byte 0, byte 1, byte 2⟩

/-- What the file holds: the header comes first, the data of all its parts is one run, and a palette
is there if it is needed. -/
def ofFile? (bytes : ByteArray) : Option Sheet := do
  let first :: rest ← chunks? bytes | failure
  guard (first.kind = "IHDR")
  let header ← Header.ofBytes? first.data
  let of? (kind : String) := (rest.find? fun c => c.kind = kind).map Chunk.data
  guard (header.color ≠ .indexed ∨ (of? "PLTE").isSome)
  let packed := (rest.filter fun c => c.kind = "IDAT").foldl (fun all c => all ++ c.data) .empty
  return {
    size := header.size
    color := header.color
    bits := header.bits
    samples := ← header.grid.samples? header.passes (← Deflate.decompress? packed)
    palette := ((of? "PLTE").map paletteOf).getD #[]
    transparency := (of? "tRNS").map ByteArray.data }

end Sheet

/-- A file that holds an image, without interlacing, marked as having standard colors. -/
def Bitmap.file (b : Bitmap) : ByteArray :=
  let color : UInt8 := match b.color with
    | .gray => 0
    | .rgb => 2
    | .indexed => 3
    | .grayAlpha => 4
    | .rgba => 6
  let header := wordBytes b.size.width ++ wordBytes b.size.height
    ++ ⟨#[b.bits.count.toUInt8, color, 0, 0, 0]⟩
  let parts : List Chunk :=
    [⟨"IHDR", header⟩, ⟨"sRGB", ⟨#[0]⟩⟩, ⟨"IDAT", Deflate.wrap b.rows⟩, ⟨"IEND", .empty⟩]
  parts.foldl (fun all c => all ++ c.bytes) ⟨pngSignature.toArray⟩

end HueSaturation
