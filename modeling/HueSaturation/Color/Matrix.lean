import HueSaturation.Color.Rgb
import HueSaturation.Number.Binary32

/-!
# Color matrices

* `Row α`            four coefficients, of red, green, blue and the constant `1`;
* `ColorMatrix α`    a 4x4 matrix over the column `(r, g, b, 1)`: where effects are composed;
* `BandMatrix α`     its three rows that give a channel: what is applied to a pixel;
* `ColorMatrix.mul`  the product with sums from left to right, `a * b` being "first `b`, then `a`";
* `BandMatrix.apply` the pixel that a matrix makes of a pixel;
* `Library α`        what is handed in: the elementary functions and a product of matrices;
* `Library.mul`, `compose`   the product that effects are composed with.

Over rounded numbers the order of additions is part of a sum.
-/

namespace HueSaturation

structure Row (α : Type) where
  r : α
  g : α
  b : α
  c : α
deriving DecidableEq, BEq, Repr

/-- A 4x4 matrix: the rows that give red, green, blue and the homogeneous `1`. -/
structure ColorMatrix (α : Type) where
  red : Row α
  green : Row α
  blue : Row α
  one : Row α
deriving DecidableEq, BEq, Repr

/-- The part of a `ColorMatrix` that is applied to pixels. -/
structure BandMatrix (α : Type) where
  red : Row α
  green : Row α
  blue : Row α
deriving DecidableEq, BEq, Repr

variable {α : Type}

namespace ColorMatrix

def transpose (m : ColorMatrix α) : ColorMatrix α where
  red := ⟨m.red.r, m.green.r, m.blue.r, m.one.r⟩
  green := ⟨m.red.g, m.green.g, m.blue.g, m.one.g⟩
  blue := ⟨m.red.b, m.green.b, m.blue.b, m.one.b⟩
  one := ⟨m.red.c, m.green.c, m.blue.c, m.one.c⟩

@[simp] theorem transpose_transpose (m : ColorMatrix α) : m.transpose.transpose = m := rfl

def band (m : ColorMatrix α) : BandMatrix α :=
  ⟨m.red, m.green, m.blue⟩

end ColorMatrix

section
variable [Scalar α]

namespace Row

def dot (u v : Row α) : α :=
  u.r * v.r + u.g * v.g + u.b * v.b + u.c * v.c

def eval (u : Row α) (p : Rgb α) : α :=
  u.r * p.r + u.g * p.g + u.b * p.b + u.c

end Row

namespace ColorMatrix

/-- The matrix that scales each channel by a factor of its own. -/
def diagonal (r g b : α) : ColorMatrix α where
  red := ⟨r, 0.0, 0.0, 0.0⟩
  green := ⟨0.0, g, 0.0, 0.0⟩
  blue := ⟨0.0, 0.0, b, 0.0⟩
  one := ⟨0.0, 0.0, 0.0, 1.0⟩

def identity : ColorMatrix α :=
  diagonal 1.0 1.0 1.0

/-- The product of a row with every column of `m`. -/
def rowTimes (u : Row α) (m : ColorMatrix α) : Row α :=
  ⟨u.dot m.transpose.red, u.dot m.transpose.green, u.dot m.transpose.blue, u.dot m.transpose.one⟩

/-- The matrix product, the four products of an entry added first to last. -/
def mul (a b : ColorMatrix α) : ColorMatrix α where
  red := rowTimes a.red b
  green := rowTimes a.green b
  blue := rowTimes a.blue b
  one := rowTimes a.one b

instance : Mul (ColorMatrix α) := ⟨mul⟩

def isIdentity (m : ColorMatrix α) : Bool :=
  m == identity

end ColorMatrix

namespace BandMatrix

def identity : BandMatrix α :=
  ColorMatrix.identity.band

/-- The pixel that `m` makes of `p`, not cut down to `[0, 1]`. -/
def apply (m : BandMatrix α) (p : Rgb α) : Rgb α :=
  ⟨m.red.eval p, m.green.eval p, m.blue.eval p⟩

def isIdentity (m : BandMatrix α) : Bool :=
  m == identity

end BandMatrix

def ColorMatrix.apply (m : ColorMatrix α) (p : Rgb α) : Rgb α :=
  m.band.apply p

end

/-- What is handed in: the elementary functions, and the product of a library of vectors, which
stores a matrix column by column. -/
structure Library (α : Type) extends Elementary α where
  /-- the product of two matrices, the rows of each being its columns -/
  times : ColorMatrix α → ColorMatrix α → ColorMatrix α

namespace Library

instance : Coe (Library α) (Elementary α) := ⟨toElementary⟩

/-- The product of two matrices, through the layout by columns and back. -/
def mul (fns : Library α) (a b : ColorMatrix α) : ColorMatrix α :=
  (fns.times a.transpose b.transpose).transpose

/-- The matrix of "first `first`, then `second`". -/
def compose (fns : Library α) (first second : ColorMatrix α) : ColorMatrix α :=
  fns.mul second first

def binary32 : Library Float32 where
  toElementary := .binary32
  times x y := (x.transpose * y.transpose).transpose

end Library
end HueSaturation
