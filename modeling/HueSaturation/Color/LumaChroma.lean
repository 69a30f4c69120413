import HueSaturation.Color.Rgb

/-!
# Luma and chroma

A pixel is split into its luma `y` and the two differences `cb = b - y` and `cr = r - y`. In polar
form the pair `(cb, cr)` is a magnitude and a hue, an angle in turns. Green comes back from the luma
equation, so the luma survives whatever happens to the chroma.

* `LumaChroma`, `Polar`           the two forms;
* `Rgb.toLumaChroma`, `LumaChroma.toRgb`   pixel to luma and chroma, and back;
* `LumaChroma.toPolar`, `Polar.toLumaChroma`   to polar form, and back;
* `Polar.rotate`                  the hue advanced, modulo one turn;
* `LumaChroma.gamutScale`         the largest chroma scale that keeps every channel in `[0, 1]`;
* `hueDistance`                   the shorter way between two hues.
-/

namespace HueSaturation

structure LumaChroma (α : Type) where
  luma : α
  /-- blue minus luma -/
  cb : α
  /-- red minus luma -/
  cr : α
deriving DecidableEq, BEq, Repr

structure Polar (α : Type) where
  luma : α
  /-- the length of the vector `(cb, cr)` -/
  chroma : α
  /-- its angle in turns -/
  hue : α
deriving DecidableEq, BEq, Repr

variable {α : Type} [Scalar α]

def Rgb.toLumaChroma (p : Rgb α) : LumaChroma α :=
  ⟨p.luma, p.b - p.luma, p.r - p.luma⟩

namespace LumaChroma

/-- The pixel with this luma and these differences; green is what the luma equation leaves. -/
def toRgb (c : LumaChroma α) : Rgb α :=
  let r := c.luma + c.cr
  let b := c.luma + c.cb
  ⟨r, (c.luma - 0.2126 * r - 0.0722 * b) / 0.7152, b⟩

/-- The chroma as magnitude and hue; without chroma the hue is `0`. -/
def toPolar (fns : Elementary α) (c : LumaChroma α) : Polar α :=
  let chroma := fns.hypot c.cb c.cr
  ⟨c.luma, chroma,
    if Scalar.lt 0.0 chroma then Scalar.turn (fns.atan2 c.cr c.cb / fns.tau) else 0.0⟩

def scaleChroma (c : LumaChroma α) (k : α) : LumaChroma α :=
  ⟨c.luma, c.cb * k, c.cr * k⟩

/-- The scale `k`, or less if the channel `x` leaves `[0, 1]` at the scale one. -/
def fitChannel (y k x : α) : α :=
  let d := x - y
  if Scalar.lt 1.0 x && Scalar.lt 0.0 d then Scalar.least k ((1.0 - y) / d)
  else if Scalar.lt x 0.0 && Scalar.lt d 0.0 then Scalar.least k (-y / d)
  else k

/-- The largest chroma scale in `[0, 1]` that keeps every channel in `[0, 1]`. No scale mends a luma
outside `[0, 1]`: then it is `0`. -/
def gamutScale (c : LumaChroma α) : α :=
  if Scalar.within 0.0 1.0 c.luma then
    let p := c.toRgb
    Scalar.clamp 0.0 1.0
      (fitChannel c.luma (fitChannel c.luma (fitChannel c.luma 1.0 p.r) p.g) p.b)
  else 0.0

/-- The color with its chroma scaled into the unit cube. -/
def fitted (c : LumaChroma α) : LumaChroma α :=
  c.scaleChroma c.gamutScale

end LumaChroma

def Rgb.toPolar (fns : Elementary α) (p : Rgb α) : Polar α :=
  p.toLumaChroma.toPolar fns

namespace Polar

def rotate (p : Polar α) (turns : α) : Polar α :=
  { p with hue := Scalar.turn (p.hue + turns) }

def toLumaChroma (fns : Elementary α) (p : Polar α) : LumaChroma α :=
  let angle := p.hue * fns.tau
  ⟨p.luma, p.chroma * fns.cos angle, p.chroma * fns.sin angle⟩

end Polar

def hueDistance (a b : α) : α :=
  let d := Scalar.turn (a - b)
  Scalar.least d (1.0 - d)

end HueSaturation
