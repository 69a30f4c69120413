import HueSaturation.Number.Binary32

/-!
# Numbers read from text

* `Numeral`      the digits of a number, as they were written;
* `Numeral.toFloat32`, `toFloat`   the nearest float;
* `Numeral.toFloat32Stepwise?`   the float that a reader with a 64-bit significand finds: one
                  scaling by a power of ten in binary64, then a rounding to binary32;
* `floatOfText?`, `countOfText?`, `wordOfText?`   numbers on a command line.
-/

namespace HueSaturation

structure Numeral where
  negative : Bool
  /-- the digits before the point -/
  whole : List Nat
  /-- the digits after the point, if there is a point -/
  fraction : Option (List Nat)
  /-- the exponent of ten, if there is one -/
  exponent : Option Int
deriving DecidableEq, Repr

/-- The value of decimal digits, highest first. -/
def ofDigits (digits : List Nat) : Nat :=
  digits.foldl (fun n d => 10 * n + d) 0

def digit? (c : Char) : Option Nat :=
  if '0' ≤ c && c ≤ '9' then some (c.toNat - '0'.toNat) else none

def leadingDigits : List Char → List Nat × List Char
  | [] => ([], [])
  | c :: rest =>
    match digit? c with
    | some d => let (ds, tail) := leadingDigits rest; (d :: ds, tail)
    | none => ([], c :: rest)

/-- The exponent at the start of a text: `e` or `E`, an optional sign and digits. `none` if the
digits are missing. -/
def leadingExponent? : List Char → Option (Option Int × List Char)
  | [] => some (none, [])
  | c :: rest =>
    if c = 'e' || c = 'E' then
      let (negative, rest) := match rest with
        | '-' :: r => (true, r)
        | '+' :: r => (false, r)
        | r => (false, r)
      match leadingDigits rest with
      | ([], _) => none
      | (ds, rest) =>
        let n := Int.ofNat (ofDigits ds)
        some (some (if negative then -n else n), rest)
    else some (none, c :: rest)

namespace Numeral

def digits (n : Numeral) : List Nat :=
  n.whole ++ n.fraction.getD []

/-- The exponent of ten that belongs to the last digit. -/
def lastExponent (n : Numeral) : Int :=
  n.exponent.getD 0 - (n.fraction.getD []).length

/-- The place of the point relative to the first nonzero digit: the magnitude is below `10` to this
power, and at least a tenth of that. -/
def point (n : Numeral) : Int :=
  (n.digits.dropWhile (· = 0)).length + n.lastExponent

/-- The nearest binary32 float. A magnitude of `10 ^ 40` is infinite and one below
`10 ^ -60` zero. -/
def toFloat32 (n : Numeral) : Float32 :=
  let magnitude : Float32 :=
    if ofDigits n.digits = 0 || n.point < -60 then 0.0
    else if 40 < n.point then Float32.ofBits 0x7f800000
    else Float32.ofScientific (ofDigits n.digits) (n.lastExponent < 0) n.lastExponent.natAbs
  if n.negative then -magnitude else magnitude

def toFloat (n : Numeral) : Float :=
  let magnitude : Float :=
    if ofDigits n.digits = 0 || n.point < -400 then 0.0
    else if 400 < n.point then Float.ofBits 0x7ff0000000000000
    else Float.ofScientific (ofDigits n.digits) (n.lastExponent < 0) n.lastExponent.natAbs
  if n.negative then -magnitude else magnitude

def isInteger (n : Numeral) : Bool :=
  n.fraction.isNone && n.exponent.isNone

/-- Digits appended to a significand while it stays a word of 64 bits, and how many did not fit. -/
def fill (significand : Nat) : List Nat → Nat × Nat
  | [] => (significand, 0)
  | d :: ds =>
    if 10 * significand + d < 0x10000000000000000 then fill (10 * significand + d) ds
    else (significand, ds.length + 1)

/-- `significand * 10 ^ exponent` in binary64: one multiplication or division by a power of ten;
below `10 ^ -308` one division by `10 ^ 308` first. `none` if the result is infinite. -/
def scale? (significand : Nat) (exponent : Int) : Option Float :=
  let f := significand.toUInt64.toFloat
  if 308 < exponent then if f == 0.0 then some f else none
  else if 0 ≤ exponent then
    let r := f * Float.ofScientific 1 false exponent.toNat
    if r.isInf then none else some r
  else if -308 ≤ exponent then some (f / Float.ofScientific 1 false exponent.natAbs)
  else if f == 0.0 then some f
  else
    let g := f / Float.ofScientific 1 false 308
    let rest := exponent + 308
    if -308 ≤ rest then some (g / Float.ofScientific 1 false rest.natAbs) else some 0.0

/-- The float that a reader with a significand of 64 bits finds. Digits that do not fit are dropped;
a whole number that fits is rounded to binary32 at once. `none` if the number is beyond binary64. -/
def toFloat32Stepwise? (n : Numeral) : Option Float32 :=
  let signed (x : Float32) := if n.negative then -x else x
  let (s, dropped) := fill 0 n.whole
  if n.isInteger && dropped = 0 then
    if n.negative && 0x8000000000000000 < s then some (signed s.toUInt64.toFloat.toFloat32)
    else some (signed s.toUInt64.toFloat32)
  else
    let after := n.fraction.getD []
    let (s, left) := fill s after
    let exponent := (dropped : Int) - (after.length - left)
    match n.exponent with
    | some e =>
      if 0x80000000 ≤ e.natAbs then if s ≠ 0 && 0 < e then none else some (signed 0.0)
      else (scale? s (exponent + e)).map fun f => signed f.toFloat32
    | none => (scale? s exponent).map fun f => signed f.toFloat32

end Numeral

/-- A number on a command line: a sign, `inf`, `infinity`, `nan` or digits with at most one point,
and an exponent. At least one digit has to stand before the exponent. -/
def floatOfText? (s : String) : Option Float32 :=
  let (negative, body) := match s.toList with
    | '-' :: r => (true, r)
    | '+' :: r => (false, r)
    | r => (false, r)
  let signed (x : Float32) : Float32 := if negative then -x else x
  let word := String.ofList (body.map Char.toLower)
  if word = "inf" || word = "infinity" then some (signed (Float32.ofBits 0x7f800000))
  else if word = "nan" then some (Float32.ofBits 0x7fc00000)
  else
    let (whole, rest) := leadingDigits body
    let (fraction, rest) := match rest with
      | '.' :: r => let (ds, r) := leadingDigits r; (some ds, r)
      | r => (none, r)
    match leadingExponent? rest with
    | some (exponent, []) =>
      if whole.isEmpty && (fraction.getD []).isEmpty then none
      else some (Numeral.mk negative whole fraction exponent).toFloat32
    | _ => none

/-- A count on a command line: an optional plus and digits, below `bound`. -/
def countOfText? (bound : Nat) (s : String) : Option Nat :=
  let body := match s.toList with
    | '+' :: r => r
    | r => r
  match leadingDigits body with
  | ([], _) => none
  | (ds, []) => let n := ofDigits ds; if n < bound then some n else none
  | _ => none

/-- A whole number on a command line: an optional sign and digits. -/
def integerOfText? (s : String) : Option Int :=
  let (negative, body) := match s.toList with
    | '-' :: r => (true, r)
    | '+' :: r => (false, r)
    | r => (false, r)
  match leadingDigits body with
  | ([], _) => none
  | (ds, []) => let n := Int.ofNat (ofDigits ds); some (if negative then -n else n)
  | _ => none

/-- A number of 32 bits on a command line. It may have a sign, so `-0` is one. -/
def wordOfText? (s : String) : Option UInt32 := do
  let n ← integerOfText? s
  if 0 ≤ n && n < 0x100000000 then some (UInt32.ofNat n.toNat) else none

end HueSaturation
