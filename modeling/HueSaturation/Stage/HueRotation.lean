import HueSaturation.Color.LumaChroma

/-!
# Hue rotation

Each pixel goes to polar form, its hue is advanced, and it comes back. Luma and hue are kept exact:
where the rotated color leaves the unit cube, its chroma shrinks until it fits.

* `HueRotation`             the stage: the rotation in turns, in `[0, 1)`;
* `HueRotation.ofFraction`, `ofDegrees`   the stage for a fraction of a turn, for degrees;
* `HueRotation.rotated`     a color rotated and fitted, before it is cut down to `[0, 1]`;
* `HueRotation.applyPixel`  the stage on one pixel.
-/

namespace HueSaturation

structure HueRotation (α : Type) where
  /-- the rotation in turns, in `[0, 1)` -/
  turns : α
deriving DecidableEq, BEq, Repr

namespace HueRotation

variable {α : Type} [Scalar α]

/-- The rotation by a fraction of a turn, modulo one turn. What is not finite does not rotate, and
neither does a tiny negative fraction that adding one turn rounds up to a whole one. -/
def ofFraction (fraction : α) : HueRotation α :=
  let turns := if Scalar.isFinite fraction then Scalar.turn fraction else 0.0
  ⟨if Scalar.le 1.0 turns then 0.0 else turns⟩

def ofDegrees (degrees : α) : HueRotation α :=
  ofFraction (degrees / 360.0)

def isIdentity (s : HueRotation α) : Bool :=
  s.turns == 0.0

def rotated (s : HueRotation α) (fns : Elementary α) (c : Polar α) : Rgb α :=
  ((c.rotate s.turns).toLumaChroma fns).fitted.toRgb

/-- The chroma is so small that the color counts as gray and is left alone. -/
def isGray (c : Polar α) : Bool :=
  Scalar.le c.chroma 0.000001

def applyPixel (s : HueRotation α) (fns : Elementary α) (p : Rgb α) : Rgb α :=
  if s.isIdentity then p
  else
    let c := p.toPolar fns
    if isGray c then p else (s.rotated fns c).unit

end HueRotation
end HueSaturation
