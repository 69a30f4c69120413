import HueSaturation.Color.Rgb
import HueSaturation.Number.Binary32
import HueSaturation.Raster.Error

/-!
# Images

An image holds one pixel for each coordinate, row by row from the top. Its pixels are a vector whose
length is the area of its size, so no operation on images can lose or add one.

* `Image π`           an image of pixels `π`;
* `Image.map`, `zip`  pixel by pixel;
* `Channels π`        pixels that are a fixed count of floats;
* `chunks`, `pairs`   a list of floats, or of anything, cut into chunks of one length;
* `Image.ofData`      the image with the given floats.
-/

namespace HueSaturation

namespace Size

theorem index_lt {s : Size} {x y : Nat} (hx : x < s.width.toNat) (hy : y < s.height.toNat) :
    y * s.width.toNat + x < s.area := by
  calc y * s.width.toNat + x < y * s.width.toNat + s.width.toNat := by omega
    _ = (y + 1) * s.width.toNat := by rw [Nat.add_mul, Nat.one_mul]
    _ ≤ s.height.toNat * s.width.toNat := Nat.mul_le_mul_right _ hy
    _ = s.area := Nat.mul_comm _ _

theorem column_lt {s : Size} {i : Nat} (h : i < s.area) : i % s.width.toNat < s.width.toNat :=
  Nat.mod_lt _ (Nat.pos_of_ne_zero fun hw => by simp [area, hw] at h)

theorem row_lt {s : Size} {i : Nat} (h : i < s.area) : i / s.width.toNat < s.height.toNat :=
  Nat.div_lt_of_lt_mul h

end Size

structure Image (π : Type) extends Size where
  pixels : Vector π toSize.area

namespace Image

variable {π ρ σ : Type}

/-- Images are equal if their sizes are and every two pixels are. -/
instance [BEq π] : BEq (Image π) where
  beq a b := a.toSize == b.toSize && a.pixels.toArray == b.pixels.toArray

def fill (size : Size) (p : π) : Image π :=
  { size with pixels := Vector.replicate _ p }

def map (f : π → ρ) (img : Image π) : Image ρ :=
  { img.toSize with pixels := img.pixels.map f }

def zip (f : π → ρ → σ) (a : Image π) (b : Image ρ) (h : b.toSize = a.toSize) : Image σ :=
  { a.toSize with pixels := Vector.zipWith f a.pixels (b.pixels.cast (congrArg Size.area h)) }

end Image

class Channels (π : Type) where
  /-- how many floats a pixel is -/
  count : Nat
  count_pos : 0 < count
  toVector : π → Vector Float32 count
  ofVector : Vector Float32 count → π
  ofVector_toVector (p : π) : ofVector (toVector p) = p
  toVector_ofVector (v : Vector Float32 count) : toVector (ofVector v) = v

instance : Channels (Rgb Float32) where
  count := 3
  count_pos := by decide
  toVector p := #v[p.r, p.g, p.b]
  ofVector v := ⟨v[0], v[1], v[2]⟩
  ofVector_toVector _ := rfl
  toVector_ofVector v := by
    ext i hi
    match i with
    | 0 | 1 | 2 => rfl

instance : Channels Float32 where
  count := 1
  count_pos := by decide
  toVector x := #v[x]
  ofVector v := v[0]
  ofVector_toVector _ := rfl
  toVector_ofVector v := by
    ext i hi
    match i with
    | 0 => rfl

abbrev RgbImage := Image (Rgb Float32)

/-- A mask: how much of an edit shows, for every pixel. -/
abbrev Mask := Image Float32

theorem place_lt_of_lt_div {i c k n : Nat} (hi : i < n / k) (hc : c < k) : i * k + c < n := by
  calc i * k + c < i * k + k := by omega
    _ = (i + 1) * k := by rw [Nat.add_mul, Nat.one_mul]
    _ ≤ n / k * k := Nat.mul_le_mul_right _ hi
    _ ≤ n := Nat.div_mul_le_self n k

/-- The chunks of `k` elements, one after the other. Fewer than `k` elements at the end are left
out. -/
def chunks {α : Type} (k : Nat) (xs : Array α) : Array (Vector α k) :=
  Array.ofFn fun i : Fin (xs.size / k) => Vector.ofFn fun c : Fin k =>
    have : i.val * k + c.val < xs.size := place_lt_of_lt_div i.2 c.2
    xs[i.val * k + c.val]

/-- The elements two by two. A single one at the end is left out. -/
def pairs {α : Type} (xs : Array α) : Array (α × α) :=
  (chunks 2 xs).map fun v => (v[0], v[1])

@[simp] theorem size_chunks {α : Type} (k : Nat) (xs : Array α) :
    (chunks k xs).size = xs.size / k :=
  Array.size_ofFn

namespace Image

variable {π : Type} [Channels π]

/-- The image with every channel zero. -/
def blank (size : Size) : Image π :=
  fill size (Channels.ofVector (Vector.replicate _ 0.0))

/-- The image with the given channels, row by row. There has to be one for each channel of each
pixel. No list is as long as a count of channels beyond the 64-bit words: such a count stops the
program. -/
def ofData (size : Size) (data : Array Float32) : Except (Failure RasterError) (Image π) :=
  let expected := size.area * Channels.count π
  if h : data.size = expected then
    let pixels := (chunks (Channels.count π) data).map Channels.ofVector
    have : pixels.size = size.area := by
      rw [Array.size_map, size_chunks, h, Nat.mul_div_cancel _ Channels.count_pos]
    .ok { size with pixels := ⟨pixels, this⟩ }
  else if expected < 0x10000000000000000 then
    .error (.refused (.wrongLength size expected data.size))
  else .error .panic

end Image
end HueSaturation
