import HueSaturation.Number.Shortest

/-!
# Numbers as text

* `NumberStyle`   what a text format decides about a float, apart from its digits;
* `NumberStyle.render`   the shortest text of a float in a style;
* `fixedPlaces`   a float with a fixed count of digits after the point, rounded from its exact
                  value, a tie to the even digit;
* `padLeft`, `padRight`   text filled up with blanks to a width.
-/

namespace HueSaturation

structure NumberStyle where
  /-- Whether a number is written without an exponent; the argument is the place of the point,
  counted from the left of the first digit. -/
  positional : Int → Bool
  /-- what stands before an exponent that is not negative -/
  exponentMark : String
  /-- the choice between two shortest decimals that are equally near -/
  tie : Tie
  /-- what follows a whole number written without an exponent -/
  wholeMark : String
  notANumber : String
  infinite : String

def zeros (n : Nat) : String :=
  String.ofList (List.replicate n '0')

namespace NumberStyle

def magnitude (style : NumberStyle) (d : Decimal) : String :=
  let digits := Nat.toDigits 10 d.digits
  let point := digits.length + d.exponent
  if style.positional point then
    if 0 ≤ d.exponent then
      String.ofList digits ++ zeros d.exponent.toNat ++ style.wholeMark
    else if 0 < point then
      String.ofList (digits.take point.toNat) ++ "." ++ String.ofList (digits.drop point.toNat)
    else
      "0." ++ zeros (-point).toNat ++ String.ofList digits
  else
    let rest := digits.drop 1
    String.ofList (digits.take 1) ++ (if rest.isEmpty then "" else "." ++ String.ofList rest)
      ++ "e" ++ (if 0 < point then style.exponentMark else "") ++ (point - 1).repr

/-- The shortest text that reads back as `x`; a minus stands before everything but "not a
number". -/
def render (style : NumberStyle) (x : Float32) : String :=
  if x.isNaN then style.notANumber
  else
    (if Binary32.signBit x then "-" else "")
      ++ if x.isInf then style.infinite
        else style.magnitude ((Dyadic.ofFloat32 x).shortest style.tie)

/-- Numbers in messages and listings: never an exponent, whole numbers without a point. Of two
equally near decimals the larger is taken. -/
def plain : NumberStyle where
  positional _ := true
  exponentMark := ""
  tie := .up
  wholeMark := ""
  notANumber := "NaN"
  infinite := "inf"

end NumberStyle

def plainText (x : Float32) : String :=
  NumberStyle.plain.render x

/-- `num / den` rounded to the nearest whole number, a tie to the even one. -/
def roundQuotient (num den : Nat) : Nat :=
  let q := num / den
  let r := num % den
  if den < 2 * r || (2 * r = den && Tie.toEven.takesUpper q) then q + 1 else q

def fixedPlaces (places : Nat) (x : Float32) : String :=
  let sign := if Binary32.signBit x then "-" else ""
  if x.isNaN then NumberStyle.plain.notANumber
  else if x.isInf then sign ++ NumberStyle.plain.infinite
  else
    let d := Dyadic.ofFloat32 x
    let n := roundQuotient (d.mantissa * Nat.pow 2 d.exponent.toNat * Nat.pow 10 places)
      (Nat.pow 2 (-d.exponent).toNat)
    let digits := Nat.toDigits 10 n
    let digits := List.replicate (places + 1 - digits.length) '0' ++ digits
    let whole := digits.length - places
    sign ++ String.ofList (digits.take whole) ++ "." ++ String.ofList (digits.drop whole)

def padLeft (width : Nat) (s : String) : String :=
  String.ofList (List.replicate (width - s.length) ' ') ++ s

def padRight (width : Nat) (s : String) : String :=
  s ++ String.ofList (List.replicate (width - s.length) ' ')

end HueSaturation
