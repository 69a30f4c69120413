import HueSaturation.Color.Effect
import HueSaturation.Color.LumaChroma

/-!
# Vibrance

Vibrance is saturation with a strength of its own for each pixel: muted pixels get nearly all of it,
saturated ones little, and hues near flesh tones half at most. The strength depends on the pixel, so
this stage is no matrix.

* `Vibrance`              the stage: its saturation matrix at full strength;
* `Vibrance.skinAffinity` how close a pixel's hue is to flesh tones;
* `Vibrance.strength`     the strength from a channel spread and an affinity;
* `Vibrance.weight`       the strength for a pixel;
* `Vibrance.moved`        the pixel moved by a weight, before it is cut down to `[0, 1]`;
* `Vibrance.applyPixel`   the stage on one pixel.
-/

namespace HueSaturation

structure Vibrance (α : Type) where
  /-- the saturation at full strength -/
  matrix : BandMatrix α
deriving DecidableEq, BEq, Repr

namespace Vibrance

variable {α : Type} [Scalar α]

/-- The stage for a setting in `[-100, 100]`. -/
def ofSetting (v : α) : Vibrance α :=
  ⟨(ColorMatrix.saturation (v / 100.0 + 1.0)).band⟩

def isIdentity (s : Vibrance α) : Bool :=
  s.matrix.isIdentity

/-- How close the hue of a pixel is to flesh tones: `1` at the hue `0.375`, `0` from a tenth of a
turn away and for grays. -/
def skinAffinity (fns : Elementary α) (p : Rgb α) : α :=
  let polar := p.toPolar fns
  if Scalar.le polar.chroma 0.0 then 0.0
  else Scalar.greatest (1.0 - hueDistance polar.hue 0.375 / 0.1) 0.0

def strength (spread affinity : α) : α :=
  let s := Scalar.unit spread
  (1.0 - s) * (1.0 - s) * (1.0 - 0.5 * affinity)

def weight (fns : Elementary α) (p : Rgb α) : α :=
  strength p.spread (skinAffinity fns p)

/-- The pixel `p` moved toward the full saturation by the weight `w`. -/
def moved (s : Vibrance α) (w : α) (p : Rgb α) : Rgb α :=
  p.zip (fun x full => x + w * (full - x)) (s.matrix.apply p)

def applyPixel (s : Vibrance α) (fns : Elementary α) (p : Rgb α) : Rgb α :=
  (s.moved (weight fns p) p).unit

end Vibrance
end HueSaturation
