import HueSaturation.Blend.Composition
import HueSaturation.Color.Matrix

/-!
# The host

The operator owns no pixel engine. It asks its host for two things: a matrix applied to every pixel,
and a front image composed over its back image.

* `Host m`             the two primitives, with their effects in `m`;
* `Host.reference`     the primitives computed here;
* `Host.recording`     the same, noting what was asked for;
* `Host.compose`       a composition, which asks the host only if the front can show.
-/

namespace HueSaturation

/-- What the operator asks a renderer for. -/
structure Host (m : Type → Type) where
  /-- the name of the renderer -/
  name : String
  /-- A matrix applied to every pixel, each channel cut down to `[0, 1]`. -/
  bandCombine : RgbImage → BandMatrix Float32 → m RgbImage
  /-- A front image over its back image. -/
  blend : (back front : RgbImage) → Blend → m RgbImage

/-- A matrix applied to every pixel. The identity gives the image as it is. -/
def BandMatrix.combine (m : BandMatrix Float32) (img : RgbImage) : RgbImage :=
  if m.isIdentity then img else img.map fun p => (m.apply p).unit

namespace Host

def reference : Host (Except RasterError) where
  name := "cpu"
  bandCombine img m := .ok (m.combine img)
  blend back front s := s.compose back front

inductive Primitive where
  | bandCombine
  | blend
deriving DecidableEq, Repr

/-- The primitives, computed here and noted in the order in which they are asked for. -/
def recording : Host (ExceptT RasterError (StateM (List Primitive))) where
  name := "recording"
  bandCombine img m := do
    modify (· ++ [.bandCombine])
    reference.bandCombine img m
  blend back front s := do
    modify (· ++ [.blend])
    reference.blend back front s

variable {m : Type → Type} [Monad m] [MonadExceptOf RasterError m]

/-- `front` over `back`. A transparent front gives the back as it is. -/
def compose (host : Host m) (back front : RgbImage) (s : Blend) : m RgbImage := do
  MonadExcept.ofExcept (s.checkMask back.toSize)
  if s.isTransparent && back.toSize = front.toSize then return back
  else host.blend back front s

end Host
end HueSaturation
