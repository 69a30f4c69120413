import HueSaturation.Number.Binary32
import HueSaturation.Text.Letters

/-!
# Blend modes

* `BlendMode`           how a front channel meets a back channel before opacity;
* `BlendMode.all`       the modes in menu order, with `name` and `ofName?`;
* `BlendMode.channel`   the blended channel.
-/

namespace HueSaturation

inductive BlendMode where
  /-- the front replaces the back -/
  | normal
  | multiply
  | screen
  /-- multiply or screen, keyed on the back -/
  | overlay
  | softLight
  /-- multiply or screen, keyed on the front -/
  | hardLight
  | darken
  | lighten
  | difference
deriving DecidableEq, Repr

namespace BlendMode

def all : List BlendMode :=
  [normal, multiply, screen, overlay, softLight, hardLight, darken, lighten, difference]

def name : BlendMode → String
  | normal => "normal"
  | multiply => "multiply"
  | screen => "screen"
  | overlay => "overlay"
  | softLight => "softlight"
  | hardLight => "hardlight"
  | darken => "darken"
  | lighten => "lighten"
  | difference => "difference"

/-- The mode with a name, in upper or lower case. -/
def ofName? (s : String) : Option BlendMode :=
  all.find? fun m => equalIgnoringCase m.name s

/-- Twice the product in the dark half of `key`, the inverted product of the inverses in the light
half. -/
def multiplyOrScreen (key a b : Float32) : Float32 :=
  if key < 0.5 then 2.0 * a * b else 1.0 - 2.0 * (1.0 - a) * (1.0 - b)

/-- The curve that soft light moves the back toward: a square root, replaced by a cubic in the
darks. -/
def softCurve (b : Float32) : Float32 :=
  if b < 0.25 then ((16.0 * b - 12.0) * b + 4.0) * b else b.sqrt

/-- The channel `a` of the front blended with the channel `b` of the back. -/
def channel : BlendMode → Float32 → Float32 → Float32
  | normal, a, _ => a
  | multiply, a, b => a * b
  | screen, a, b => 1.0 - (1.0 - a) * (1.0 - b)
  | overlay, a, b => multiplyOrScreen b a b
  | softLight, a, b =>
    if a < 0.5 then b - (1.0 - 2.0 * a) * b * (1.0 - b)
    else b + (2.0 * a - 1.0) * (softCurve b - b)
  | hardLight, a, b => multiplyOrScreen a a b
  | darken, a, b => Scalar.least a b
  | lighten, a, b => Scalar.greatest a b
  | difference, a, b => (a - b).abs

end BlendMode
end HueSaturation
