import HueSaturation.Number.Scalar

/-!
# Binary32 floats as scalars

Rounding to whole numbers is built from the arithmetic and the conversions, all of which have a
meaning in the logic, so that it can be reasoned about.

* `Binary32.copySign`  a magnitude with another number's sign;
* `Binary32.trunc`, `floor`, `ceil`, `round`  whole numbers near a number, sign of zero kept;
* `Binary32.fraction`  what division by one leaves over;
* `instScalarFloat32`  binary32 floats are a `Scalar`;
* `Elementary.binary32`  the elementary functions of the machine.
-/

namespace HueSaturation
namespace Binary32

/-- The sign bit is set. -/
def signBit (x : Float32) : Bool :=
  x.toBits ≥ 0x80000000

def copySign (x s : Float32) : Float32 :=
  if signBit s then -x.abs else x.abs

/-- `x` without its fraction. From `2 ^ 23` on every float is whole. -/
def trunc (x : Float32) : Float32 :=
  if x.abs < 8388608.0 then copySign x.abs.toUInt32.toFloat32 x else x

/-- The largest whole number that is at most `x`. -/
def floor (x : Float32) : Float32 :=
  let t := trunc x
  if x < t then t - 1.0 else t

/-- The smallest whole number that is at least `x`. -/
def ceil (x : Float32) : Float32 :=
  let t := trunc x
  if t < x then t + 1.0 else t

/-- The whole number nearest to `x`; a half goes away from zero. -/
def round (x : Float32) : Float32 :=
  let t := trunc x.abs
  copySign (if 0.5 ≤ x.abs - t then t + 1.0 else t) x

def fraction (x : Float32) : Float32 :=
  copySign (x - trunc x) x

/-- The whole number `x` as an integer; without its fraction if it has one. -/
def toInt (x : Float32) : Int :=
  if signBit x then -(x.abs.toUInt32.toNat : Int) else x.abs.toUInt32.toNat

/-- Every bit of a number, lowest last, as eight hexadecimal digits. -/
def hexDigits (x : Float32) : String :=
  let n := x.toBits.toNat
  String.ofList ((List.range 8).map fun i => Nat.digitChar (n / Nat.pow 16 (7 - i) % 16))

end Binary32

instance : Scalar Float32 where
  lt := Float32.lt
  le := Float32.le
  isNaN := Float32.isNaN
  isFinite := Float32.isFinite
  ofInt := Float32.ofInt
  fraction := Binary32.fraction

namespace Elementary

/-- The machine's functions. The length of a vector is computed in binary64 and rounded once; an
infinite side makes it infinite. -/
def binary32 : Elementary Float32 where
  exp2 := Float32.exp2
  sin := Float32.sin
  cos := Float32.cos
  atan2 := Float32.atan2
  hypot x y :=
    if x.isInf || y.isInf then Float32.ofBits 0x7f800000
    else (x.toFloat * x.toFloat + y.toFloat * y.toFloat).sqrt.toFloat32
  tau := 6.2831855

end Elementary
end HueSaturation
