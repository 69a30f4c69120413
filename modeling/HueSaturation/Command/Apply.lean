import HueSaturation.Command.Request
import HueSaturation.Png.Picture

/-!
# Applying an edit to a file

* `Files m`          where images are read from and written to;
* `Apply`            input, output, edit and composition;
* `Apply.prepare`    the edit and the composition, before a file is touched;
* `Apply.develop`    the edit on a picture, alpha and depth kept;
* `Apply.run`        the whole command.
-/

namespace HueSaturation

/-- The library that reads and writes PNG files, and the files themselves. -/
structure Files (m : Type → Type) where
  /-- What is handed over of a file. -/
  read : (path : String) → m Bitmap
  /-- A new file, or an old one emptied, before anything is written to it. -/
  create : (path : String) → m Unit
  /-- The image put into the file. -/
  write : (path : String) → Bitmap → m Unit

/-- The command that applies an edit to a file. -/
structure Apply where
  input : String
  output : String
  request : Request := {}
  opacity : Float32 := 1.0
  mode : BlendMode := .normal
  tile : UInt32 := defaultTile

namespace Apply

/-- The edit and its composition. The opacity is looked at first. -/
def prepare (c : Apply) : Except CommandError (Adjustment × Blend) := do
  if Scalar.within 0.0 1.0 c.opacity then
    return (← c.request.build, { opacity := c.opacity, mode := c.mode })
  else throw (.opacityOutside c.opacity)

def pictureOf (b : Bitmap) : Except (Failure CommandError) Picture :=
  (Picture.ofBitmap b).mapError (·.map .badPicture)

def develop (c : Apply) (fns : Library Float32) (edit : Adjustment × Blend) (source : Picture) :
    Except (Failure CommandError) Picture := do
  let (rendered, _) := edit.1.renderTiled fns .reference source.colors edit.2 c.tile
  return { source with colors := ← rendered.mapError (·.map .renderFailed) }

def bitmapOf (p : Picture) : Except (Failure CommandError) Bitmap :=
  p.toBitmap.mapError fun cause => .refused (.badPicture cause)

section
variable {m : Type → Type} [Monad m] [MonadExceptOf (Failure CommandError) m]

def save (files : Files m) (path : String) (p : Picture) : m Unit := do
  let bitmap ← MonadExcept.ofExcept (bitmapOf p)
  files.create path
  files.write path bitmap

/-- The whole command: the edit is built, the input read, rendered and written. -/
def run (c : Apply) (fns : Library Float32) (files : Files m) : m Unit := do
  let edit ← MonadExcept.ofExcept (c.prepare.mapError Failure.refused)
  let source ← MonadExcept.ofExcept (pictureOf (← files.read c.input))
  save files c.output (← MonadExcept.ofExcept (c.develop fns edit source))

end
end Apply
end HueSaturation
