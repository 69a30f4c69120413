import HueSaturation.Raster.Image

/-!
# Pixel buffers

What a program holds of an image is a size and a list of pixels, row by row. That the list is as
long as the size says is up to the operations: the test of a region goes by its edges, and a region
whose edge is beyond the largest word may pass it and be cropped to fewer rows than it has.

* `PixelBuffer π`             a size and pixels;
* `Image.buffer`, `PixelBuffer.image`   a buffer that is whole is an image;
* `PixelBuffer.pixel?`, `setPixel?`   one pixel; `none` is where the program stops;
* `PixelBuffer.crop`          a region as a buffer of its own;
* `PixelBuffer.pasteHere`     a tile put into the buffer that is the state; `PixelBuffer.paste`;
* `PixelBuffer.entries?`      every coordinate with its pixel;
* `PixelBuffer.data`, `setElement?`   the buffer as the list of all channels.
-/

namespace HueSaturation

/-- A size, and pixels row by row. The pixels are made when they are first looked at. -/
structure PixelBuffer (π : Type) extends Size where
  content : Thunk (Array π)

/-- The region that an image of a size covers when it is put at `(x, y)`. -/
def Size.footprint (size : Size) (x y : UInt32) : Region :=
  { size with x, y }

def Image.buffer {π : Type} (img : Image π) : PixelBuffer π :=
  { img.toSize with content := .pure img.pixels.toArray }

namespace PixelBuffer

variable {π ρ : Type}

def of (size : Size) (pixels : Array π) : PixelBuffer π :=
  { size with content := .pure pixels }

def pixels (b : PixelBuffer π) : Array π :=
  b.content.get

/-- There are as many pixels as the size says. -/
def Whole (b : PixelBuffer π) : Prop :=
  b.pixels.size = b.area

instance (b : PixelBuffer π) : Decidable b.Whole :=
  inferInstanceAs (Decidable (_ = _))

def image (b : PixelBuffer π) : Except (Failure RasterError) (Image π) :=
  if h : b.Whole then .ok { b.toSize with pixels := ⟨b.pixels, h⟩ } else .error .torn

instance [BEq π] : BEq (PixelBuffer π) where
  beq a b := a.toSize == b.toSize && a.pixels == b.pixels

def at? (b : PixelBuffer π) (x y : Nat) : Option π :=
  if x < b.width.toNat ∧ y < b.height.toNat then b.pixels[y * b.width.toNat + x]? else none

def pixel? (b : PixelBuffer π) (x y : UInt32) : Option π :=
  b.at? x.toNat y.toNat

def setPixel? (b : PixelBuffer π) (x y : UInt32) (p : π) : Option (PixelBuffer π) :=
  let place := y.toNat * b.width.toNat + x.toNat
  if h : (x < b.width ∧ y < b.height) ∧ place < b.pixels.size then
    some (of b.toSize (b.pixels.set place p h.2))
  else none

def map (f : π → ρ) (b : PixelBuffer π) : PixelBuffer ρ :=
  of b.toSize (b.pixels.map f)

/-- Every coordinate with its pixel, row by row. -/
def entries? (b : PixelBuffer π) : Option (List (Nat × Nat × π)) :=
  let coordinates := (List.range b.height.toNat).flatMap fun y =>
    (List.range b.width.toNat).map fun x => (x, y)
  coordinates.mapM fun (x, y) => do return (x, y, ← b.at? x y)

/-! ### Regions

The pixels of a region stand in the buffer row by row, one slice for each row. -/

/-- `count` pixels from the place `start` on; `none` if the buffer ends before. -/
def slice? (b : PixelBuffer π) (start count : Nat) : Option (Array π) :=
  if start + count ≤ b.pixels.size then some (b.pixels.extract start (start + count)) else none

/-- `copied`, then `rows` rows from row `y` on: `count` pixels of each, from column `x` on. -/
def copyRows (b : PixelBuffer π) (x count : Nat) :
    (rows y : Nat) → (copied : Array π) → Option (Array π)
  | 0, _, copied => some copied
  | rows + 1, y, copied => do
    let row ← b.slice? (y * b.width.toNat + x) count
    copyRows b x count rows (y + 1) (copied ++ row)

/-- The rows of a region up to its bottom, as a buffer of the region's size. A region that passes
the test by its edges and still leaves the image may run into the next row, out of the buffer, or
end before its last row. -/
def crop (b : PixelBuffer π) (r : Region) : Except (Failure RasterError) (PixelBuffer π) :=
  if r.fitsWithin b.toSize then
    match b.copyRows r.x.toNat r.width.toNat r.rows (r.bottom.toNat - r.rows) #[] with
    | some pixels => .ok (of r.toSize pixels)
    | none => .error .panic
  else .error (.refused (.invalidRegion r b.toSize))

def row (b : PixelBuffer π) (count y : Nat) : Array π :=
  b.pixels.extract (y * count) ((y + 1) * count)

/-- `row` in place of the pixels from the place `start` on. -/
def overwrite {n : Nat} (pixels : Vector π n) (start : Nat) (row : Array π)
    (h : start + row.size ≤ n) : Vector π n :=
  Nat.fold row.size (fun i hi pixels => pixels.set (start + i) row[i] (by omega)) pixels

/-- `row` written to a row of a region, into the pixels that are the state, `width` to a row. The
program stops if they end before, or if `row` is not as wide as the region. -/
def writeRow (width : Nat) (r : Region) (y : Nat) (row : Array π) :
    EStateM (Failure RasterError) (Array π) Unit := fun pixels =>
  let start := y * width + r.x.toNat
  if h : row.size = r.width.toNat ∧ start + row.size ≤ pixels.size then
    .ok () (overwrite ⟨pixels, rfl⟩ start row h.2).toArray
  else .error .panic pixels

/-- Row after row of a tile written to the rows of a region, `rows` of them from row `y` on. -/
def writeRows (tile : PixelBuffer π) (width : Nat) (r : Region) :
    (rows y : Nat) → EStateM (Failure RasterError) (Array π) Unit
  | 0, _ => pure ()
  | rows + 1, y => do
    writeRow width r (r.y.toNat + y) (tile.row (max r.width.toNat 1) y)
    writeRows tile width r rows (y + 1)

/-- Puts a tile into the buffer that is the state, from `(x, y)` on: as many rows as it holds. -/
def pasteHere (tile : PixelBuffer π) (x y : UInt32) :
    EStateM (Failure RasterError) (PixelBuffer π) Unit := fun b =>
  let r := tile.footprint x y
  let size := b.toSize
  if r.fitsWithin size then
    let rows := tile.pixels.size / max tile.width.toNat 1
    match tile.writeRows size.width.toNat r rows 0 b.pixels with
    | .ok () pixels => .ok () (of size pixels)
    | .error e pixels => .error e (of size pixels)
  else .error (.refused (.invalidRegion r size)) b

def paste (b tile : PixelBuffer π) (x y : UInt32) :
    Except (Failure RasterError) (PixelBuffer π) :=
  match tile.pasteHere x y b with
  | .ok () pasted => .ok pasted
  | .error e _ => .error e

section
variable [Channels π]

/-- The buffer with the pixel `p` everywhere. The program stops if its channels cannot be counted
in a 64-bit word. -/
def fill (size : Size) (p : π) : Except (Failure RasterError) (PixelBuffer π) :=
  if size.area * Channels.count π < 0x10000000000000000 then
    .ok { size with content := .mk fun _ => .replicate size.area p }
  else .error .panic

def blank (size : Size) : Except (Failure RasterError) (PixelBuffer π) :=
  fill size (Channels.ofVector (Vector.replicate _ 0.0))

/-- The channels of all pixels, row by row. -/
def data (b : PixelBuffer π) : Array Float32 :=
  b.pixels.flatMap fun p => (Channels.toVector p).toArray

/-- The buffer with `x` as the `i`-th of its channels; `none` if there are not that many. -/
def setElement? (b : PixelBuffer π) (i : Nat) (x : Float32) : Option (PixelBuffer π) :=
  let n := i / Channels.count π
  if h : n < b.pixels.size then
    let p := (Channels.toVector b.pixels[n]).set (i % Channels.count π) x
      (Nat.mod_lt _ Channels.count_pos)
    some (of b.toSize (b.pixels.set n (Channels.ofVector p)))
  else none

def describe (b : PixelBuffer π) : String :=
  "Image \x7b width: " ++ b.width.toNat.repr ++ ", height: " ++ b.height.toNat.repr
    ++ ", channels: " ++ (Channels.count π).repr ++ " \x7d"

end
end PixelBuffer

/-- The channels of all pixels, row by row. -/
def Image.data {π : Type} [Channels π] (img : Image π) : Array Float32 :=
  img.buffer.data

end HueSaturation
