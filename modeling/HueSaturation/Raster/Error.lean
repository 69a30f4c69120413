import HueSaturation.Raster.Region

/-!
# What can go wrong with images

Colors never fail. Structure does: data of the wrong length, regions that leave the image, images
and masks of different sizes.

* `RasterError`           the causes;
* `RasterError.message`   their wording;
* `Failure ε`             how an operation ends that has no result: with an error, or without one.
-/

namespace HueSaturation

/-- Why an image operation failed. -/
inductive RasterError where
  /-- a region leaves the image -/
  | invalidRegion (region : Region) (image : Size)
  /-- two images that belong together differ in size -/
  | sizesDiffer (first second : Size)
  /-- the data of an image has not one element per channel of each pixel -/
  | wrongLength (size : Size) (expected found : Nat)
  /-- a tile was rendered in another size than its own -/
  | wrongTile (tile : Region) (rendered : Size)
  /-- tiles of no pixels -/
  | emptyTiles
  /-- a render function refused its input -/
  | refused (reason : String)
deriving DecidableEq, Repr

namespace RasterError

def message : RasterError → String
  | invalidRegion r s =>
    "region (" ++ r.x.toNat.repr ++ ", " ++ r.y.toNat.repr ++ ", " ++ r.toSize.text
      ++ ") exceeds image bounds " ++ s.text
  | sizesDiffer s t => "dimension mismatch: " ++ s.text ++ " vs " ++ t.text
  | wrongLength s expected found =>
    "invalid dimensions: " ++ s.text ++ " (expected " ++ expected.repr ++ " elements, got "
      ++ found.repr ++ ")"
  | wrongTile t s =>
    "size mismatch: tile at (" ++ t.x.toNat.repr ++ ", " ++ t.y.toNat.repr ++ ") rendered as "
      ++ s.text ++ ", expected " ++ t.toSize.text
  | emptyTiles => "invalid parameter: tile size must be positive"
  | refused reason => "invalid parameter: " ++ reason

end RasterError

/-- How an operation ends that has no result. -/
inductive Failure (ε : Type) where
  /-- it returns an error -/
  | refused (cause : ε)
  /-- the program stops: a place is beyond a buffer, or a length beyond the words -/
  | panic
  /-- the program goes on with an image that lacks pixels; how is not followed -/
  | torn
deriving DecidableEq, Repr

namespace Failure

variable {ε δ : Type}

def map (f : ε → δ) : Failure ε → Failure δ
  | refused cause => refused (f cause)
  | panic => panic
  | torn => torn

/-- An operation that at worst returns an error. -/
instance : MonadLift (Except ε) (Except (Failure ε)) := ⟨Except.mapError refused⟩

end Failure
end HueSaturation
