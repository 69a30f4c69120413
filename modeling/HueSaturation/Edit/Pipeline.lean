import HueSaturation.Control.Settings
import HueSaturation.Edit.Host
import HueSaturation.Raster.Tiling
import HueSaturation.Stage.HueRotation
import HueSaturation.Stage.Vibrance

/-!
# The pipeline of an edit

The stages are fixed: one matrix for saturation, luminosity and contrast, then vibrance, then hue
rotation. Their result, the front image, is composed over the image they started from.

* `Pipeline`              the stages derived from settings; a stage whose control is at rest is
                          left out;
* `Pipeline.effects`      the effects that the matrix consists of;
* `Pipeline.ofSettings`   the pipeline of settings;
* `Pipeline.front`        the image after all stages;
* `Pipeline.render`, `renderTiled`   the front over the back, at once or tile by tile.
-/

namespace HueSaturation

structure Pipeline (α : Type) where
  settings : Settings
  /-- saturation, luminosity and contrast -/
  matrix : ColorMatrix α
  vibrance : Option (Vibrance α)
  hue : Option (HueRotation α)

namespace Pipeline

section
variable {α : Type} [Scalar α]

/-- The effects in the matrix of an edit: saturation, then luminosity, then contrast pivoted on the
luminosity. A control at zero has none. -/
def effects (s : Settings) : List (Effect α) :=
  let saturation : α := s.value .saturation
  let luminosity : α := s.value .luminosity
  let contrast : α := s.value .contrast
  let lit := luminosity / 100.0 + 1.0
  (if saturation != 0.0 then [.saturate (saturation / 100.0 + 1.0)] else [])
    ++ (if luminosity != 0.0 then [.scale lit lit lit] else [])
    ++ (if contrast != 0.0 then [.contrast contrast luminosity] else [])

def ofSettings (fns : Library α) (s : Settings) : Pipeline α :=
  let vibrance : α := s.value .vibrance
  let hue := HueRotation.ofDegrees (s.value .hue : α)
  { settings := s
    matrix := Effect.compose fns .identity (effects s)
    vibrance := if vibrance != 0.0 then some (.ofSetting vibrance) else none
    hue := if hue.isIdentity then none else some hue }

def band (p : Pipeline α) : BandMatrix α :=
  p.matrix.band

/-- The saturation of the vibrance stage; the identity without that stage. -/
def vibranceMatrix (p : Pipeline α) : BandMatrix α :=
  (p.vibrance.map Vibrance.matrix).getD .identity

/-- The hue rotation in turns; zero without that stage. -/
def hueTurn (p : Pipeline α) : α :=
  (p.hue.map HueRotation.turns).getD 0.0

def isIdentity (p : Pipeline α) : Bool :=
  p.band.isIdentity && p.vibrance.isNone && p.hue.isNone

end
end Pipeline

/-- The vibrance stage on an image. The identity gives the image as it is. -/
def Vibrance.apply (s : Vibrance Float32) (fns : Elementary Float32) (img : RgbImage) : RgbImage :=
  if s.isIdentity then img else img.map (s.applyPixel fns)

/-- The hue rotation stage on an image. The identity gives the image as it is. -/
def HueRotation.apply (s : HueRotation Float32) (fns : Elementary Float32) (img : RgbImage) :
    RgbImage :=
  if s.isIdentity then img else img.map (s.applyPixel fns)

namespace Pipeline

def afterMatrix (p : Pipeline Float32) (fns : Elementary Float32) (img : RgbImage) : RgbImage :=
  let img := p.vibrance.elim img (·.apply fns img)
  p.hue.elim img (·.apply fns img)

section
variable {m : Type → Type} [Monad m] [MonadExceptOf RasterError m]

def front (p : Pipeline Float32) (fns : Elementary Float32) (host : Host m) (back : RgbImage) :
    m RgbImage := do
  return p.afterMatrix fns (← host.bandCombine back p.band)

def render (p : Pipeline Float32) (fns : Elementary Float32) (host : Host m) (back : RgbImage)
    (s : Blend) : m RgbImage := do
  host.compose back (← p.front fns host back) s

end

/-- The front over the back, tile by tile. The mask is checked first: a mask that is too large would
pass tile by tile. -/
def renderTiled (p : Pipeline Float32) (fns : Elementary Float32) (host : Host (Except RasterError))
    (back : RgbImage) (s : Blend) (edge : UInt32) : Except (Failure RasterError) RgbImage := do
  s.checkMask back.toSize
  back.renderTiled edge fun tile region => do
    p.render (m := Except RasterError) fns host tile (← s.forTile region)

end Pipeline
end HueSaturation
