import HueSaturation.Png.Bitmap

/-!
# Rows of a PNG file

A row is a byte that names its filter and the bytes of its samples, each written as the difference
from a guess at it: the byte one pixel to the left, the one above, their mean, or whichever of left,
above and above left is nearest to left plus above minus above left. Rows come from top to bottom,
or in seven passes over a coarse grid that becomes finer.

* `Scanline.guess?`, `restore?`   the guess of a filter, and a row with its guesses added;
* `Scanline.sample`      one of the samples that a row holds;
* `Pass`                 the pixels of one pass; `Pass.whole` and `Pass.seven` are all of them;
* `Grid.samples?`        the samples of an image from the bytes of all its passes;
* `Bitmap.rows`          the rows of an image, with the filter that guesses nothing.
-/

namespace HueSaturation

namespace Scanline

/-- The byte that a filter expects between the one to the left, the one above and the one above
left. -/
def guess? (filter : UInt8) (left above corner : UInt8) : Option UInt8 :=
  match filter with
  | 0 => some 0
  | 1 => some left
  | 2 => some above
  | 3 => some ((left.toNat + above.toNat) / 2).toUInt8
  | 4 =>
    let a := left.toNat
    let b := above.toNat
    let c := corner.toNat
    let off (x : Nat) := ((a : Int) + b - c - x).natAbs
    some (if off a ≤ off b ∧ off a ≤ off c then left else if off b ≤ off c then above else corner)
  | _ => none

/-- The bytes of a row, from the row above it and the differences: `step` bytes are one pixel. -/
def restore? (filter : UInt8) (step : Nat) (above differences : ByteArray) : Option ByteArray :=
  (List.range differences.size).foldlM
    (fun row i => do
      let before (bytes : ByteArray) := if step ≤ i then (bytes[i - step]?).getD 0 else 0
      let expected ← guess? filter (before row) ((above[i]?).getD 0) (before above)
      return row.push ((differences[i]?).getD 0 + expected))
    .empty

/-- The `i`-th sample of `bits` bits in a row, the highest bits first. -/
def sample (bits : Nat) (row : ByteArray) (i : Nat) : UInt16 :=
  let byte (k : Nat) := ((row[k]?).getD 0).toNat
  if bits = 16 then (256 * byte (2 * i) + byte (2 * i + 1)).toUInt16
  else (byte (i * bits / 8) >>> (8 - bits - i * bits % 8) % Nat.pow 2 bits).toUInt16

end Scanline

/-- The pixels of a pass: every `dx`-th of every `dy`-th row, from `(x, y)` on. -/
structure Pass where
  x : Nat
  y : Nat
  dx : Nat
  dy : Nat

namespace Pass

/-- all rows from top to bottom -/
def whole : List Pass :=
  [⟨0, 0, 1, 1⟩]

/-- the seven passes of an interlaced image -/
def seven : List Pass :=
  [⟨0, 0, 8, 8⟩, ⟨4, 0, 8, 8⟩, ⟨0, 4, 4, 8⟩, ⟨2, 0, 4, 4⟩, ⟨0, 2, 2, 4⟩, ⟨1, 0, 2, 2⟩, ⟨0, 1, 1, 2⟩]

/-- how many of `size` places from `start` on are taken in steps -/
def count (size start step : Nat) : Nat :=
  (size - start + (step - 1)) / step

end Pass

/-- The measures of an image whose rows are read. -/
structure Grid where
  width : Nat
  height : Nat
  /-- samples of a pixel -/
  channels : Nat
  /-- bits of a sample -/
  bits : Nat

namespace Grid

/-- the bytes of a row with `n` pixels -/
def rowSize (g : Grid) (n : Nat) : Nat :=
  (n * g.channels * g.bits + 7) / 8

/-- the rows of a pass, and the pixels of each; none if one of the numbers is zero -/
def extent (g : Grid) (p : Pass) : Nat × Nat :=
  let columns := Pass.count g.width p.x p.dx
  if columns = 0 then (0, 0) else (Pass.count g.height p.y p.dy, columns)

/-- the bytes of all rows of the passes -/
def dataSize (g : Grid) (passes : List Pass) : Nat :=
  passes.foldl (fun n p => n + (g.extent p).1 * (g.rowSize (g.extent p).2 + 1)) 0

/-- What is known while rows are read: the place in the data, the row above and all samples. -/
structure Progress where
  start : Nat
  above : ByteArray
  samples : Array UInt16

/-- The `j`-th row of a pass with `columns` pixels, its samples put into their places. -/
def readRow (g : Grid) (p : Pass) (columns : Nat) (data : ByteArray) (done : Progress) (j : Nat) :
    Option Progress := do
  let size := g.rowSize columns
  let filter ← data[done.start]?
  let row ← Scanline.restore? filter (max 1 (g.channels * g.bits / 8)) done.above
    (data.extract (done.start + 1) (done.start + 1 + size))
  let origin := (p.y + j * p.dy) * g.width + p.x
  let place (i : Nat) := (origin + i / g.channels * p.dx) * g.channels + i % g.channels
  let samples := (List.range (columns * g.channels)).foldl
    (fun all i => all.setIfInBounds (place i) (Scanline.sample g.bits row i)) done.samples
  return ⟨done.start + 1 + size, row, samples⟩

/-- All rows of a pass. -/
def readPass (g : Grid) (data : ByteArray) (done : Progress) (p : Pass) : Option Progress :=
  let (rows, columns) := g.extent p
  (List.range rows).foldlM (g.readRow p columns data) { done with above := .empty }

/-- The samples of the image, row by row. `none` if there are not enough bytes or a filter is
unknown. -/
def samples? (g : Grid) (passes : List Pass) (data : ByteArray) : Option (Array UInt16) := do
  guard (g.dataSize passes ≤ data.size)
  let samples := Array.replicate (g.width * g.height * g.channels) 0
  return (← passes.foldlM (g.readPass data) ⟨0, .empty, samples⟩).samples

end Grid

/-- The rows of an image, with the filter that guesses nothing. -/
def Bitmap.rows (b : Bitmap) : ByteArray :=
  let height := b.size.height.toNat
  let perRow := b.bytes.size / height
  (List.range height).foldl
    (fun out j =>
      (b.bytes.extract (j * perRow) ((j + 1) * perRow)).foldl ByteArray.push (out.push 0))
    .empty

end HueSaturation
