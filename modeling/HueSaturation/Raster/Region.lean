/-!
# Sizes and regions

* `Size`      width and height in pixels, as 32-bit words;
* `Region`    a rectangle of pixels, by its corner and its size;
* `Region.right`, `Region.bottom`   the edges one past the last pixel, which stop at the largest
              word; `Region.rows` the rows above the bottom that are looked at;
* `Region.fitsWithin`   the test by these edges;
* `Region.Inside`       the same test in unbounded arithmetic.
-/

namespace HueSaturation

structure Size where
  width : UInt32
  height : UInt32
deriving DecidableEq, Repr

namespace Size

def area (s : Size) : Nat :=
  s.width.toNat * s.height.toNat

def text (s : Size) : String :=
  s.width.toNat.repr ++ "x" ++ s.height.toNat.repr

end Size

/-- The sum of two words, or the largest word if the sum is beyond it. -/
def saturatingAdd (a b : UInt32) : UInt32 :=
  if a + b < a then 0xffffffff else a + b

/-- A rectangle of pixels: `width` times `height` of them from `(x, y)` on. -/
structure Region extends Size where
  x : UInt32
  y : UInt32
deriving DecidableEq, Repr

namespace Region

def of (x y width height : UInt32) : Region :=
  { x, y, width, height }

def right (r : Region) : UInt32 :=
  saturatingAdd r.x r.width

def bottom (r : Region) : UInt32 :=
  saturatingAdd r.y r.height

/-- How many rows are looked at, up to the bottom. Without columns the last one is enough: a slice
of no pixels begins further on in it than in any other. -/
def rows (r : Region) : Nat :=
  let rows := r.bottom.toNat - r.y.toNat
  if r.width = 0 then min rows 1 else rows

/-- The region's edges lie in an image of a size. -/
def fitsWithin (r : Region) (s : Size) : Bool :=
  r.right ≤ s.width && r.bottom ≤ s.height

/-- The region lies in an image of a size. -/
def Inside (r : Region) (s : Size) : Prop :=
  r.x.toNat + r.width.toNat ≤ s.width.toNat ∧ r.y.toNat + r.height.toNat ≤ s.height.toNat

instance (r : Region) (s : Size) : Decidable (r.Inside s) :=
  inferInstanceAs (Decidable (_ ∧ _))

/-- The pixel `(x, y)` lies in the region. -/
def Contains (r : Region) (x y : Nat) : Prop :=
  (r.x.toNat ≤ x ∧ x < r.x.toNat + r.width.toNat) ∧ r.y.toNat ≤ y ∧ y < r.y.toNat + r.height.toNat

instance (r : Region) (x y : Nat) : Decidable (r.Contains x y) :=
  inferInstanceAs (Decidable (_ ∧ _))

end Region
end HueSaturation
