/-!
# Scalars

The color arithmetic is written once, over any type of numbers with the operations of a `Scalar`.
Read over binary32 floats it is what a render computes; read over a field it is the exact curve
that the rounded arithmetic follows.

* `Scalar α`      the operations: arithmetic, decidable comparison, the remainder modulo one;
* `Scalar.least`, `Scalar.greatest`   the smaller and the larger of two, passing over "not a
                  number";
* `Scalar.clamp`, `Scalar.unit`   cut down to a range, and to `[0, 1]`;
* `Scalar.turn`   an angle in turns brought into one turn;
* `Elementary α`  the transcendental functions, handed in as a record, so that what is proved
                  about a color stage holds whatever they return.
-/

namespace HueSaturation

/-- The numbers that colors are computed with. Comparisons answer `false` on "not a number". -/
class Scalar (α : Type) extends Add α, Sub α, Mul α, Div α, Neg α, OfScientific α, BEq α where
  /-- strictly less -/
  lt : α → α → Bool
  /-- less or equal -/
  le : α → α → Bool
  /-- the value is "not a number" -/
  isNaN : α → Bool
  /-- the value is neither infinite nor "not a number" -/
  isFinite : α → Bool
  /-- a whole number, exact where the type can hold it -/
  ofInt : Int → α
  /-- what division by one leaves over, with the sign of the dividend -/
  fraction : α → α

namespace Scalar

variable {α : Type} [Scalar α]

/-- The smaller of two; the other one if one is "not a number", the second of two equal ones: zeros
of both signs are equal. -/
def least (x y : α) : α :=
  if isNaN y || lt x y then x else y

/-- The larger of two; the other one if one is "not a number", the second of two equal ones. -/
def greatest (x y : α) : α :=
  if isNaN y || lt y x then x else y

/-- `x` cut down to `[lo, hi]`; "not a number" stays. -/
def clamp (lo hi x : α) : α :=
  if lt x lo then lo else if lt hi x then hi else x

/-- `x` cut down to `[0, 1]`; "not a number" becomes `0`, so it never spreads over an image. -/
def unit (x : α) : α :=
  if isNaN x then 0.0 else clamp 0.0 1.0 x

def within (lo hi x : α) : Bool :=
  le lo x && le x hi

/-- An angle in turns modulo one turn: the remainder, with one turn added if it is negative. -/
def turn (x : α) : α :=
  let r := fraction x
  if lt r 0.0 then r + 1.0 else r

end Scalar

/-- The functions a `Scalar` has no rule for. The angle functions count a full circle as `tau`. -/
structure Elementary (α : Type) where
  /-- two to the power of -/
  exp2 : α → α
  sin : α → α
  cos : α → α
  /-- `atan2 y x`: the angle of the point `(x, y)` -/
  atan2 : α → α → α
  /-- the length of the vector `(x, y)` -/
  hypot : α → α → α
  /-- the angle of a full circle -/
  tau : α

end HueSaturation
