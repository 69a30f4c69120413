import HueSaturation.Control.Panel
import HueSaturation.Edit.Version
import HueSaturation.Png.Picture

/-!
# Errors of commands

* `CommandError`             why a command failed;
* `CommandError.headline`    the line that is shown;
* `CommandError.message`     the same with its cause;
* `CommandError.report`      what the error output shows.
-/

namespace HueSaturation

inductive CommandError where
  /-- the opacity is not in `[0, 1]` -/
  | opacityOutside (opacity : Float32)
  /-- controls that the version does not have -/
  | unavailable (controls : List Control) (version : Version)
  /-- a value was refused -/
  | refused (cause : PanelError)
  | openFailed (path : String)
  | decodeFailed (path : String)
  /-- the image that was read, or that is to be written, was refused -/
  | badPicture (cause : PictureError)
  | renderFailed (cause : RasterError)
  | createFailed (path : String)
  | writeFailed (path : String)

namespace CommandError

def names (controls : List Control) : String :=
  joined ", " (controls.map Control.name)

def headline : CommandError → String
  | opacityOutside x => "opacity must be in [0, 1], got " ++ plainText x
  | unavailable controls version =>
    names controls ++ " not available in \"" ++ version.typeName ++ "\" (available: "
      ++ names version.controls ++ ")"
  | refused cause => cause.message
  | openFailed path => "Failed to open: " ++ path
  | decodeFailed path => "Failed to decode: " ++ path
  | badPicture cause => cause.message
  | renderFailed _ => "Render failed"
  | createFailed path => "Failed to create: " ++ path
  | writeFailed path => "Failed to write: " ++ path

def cause? : CommandError → Option String
  | renderFailed cause => some cause.message
  | _ => none

def message (e : CommandError) : String :=
  match e.cause? with
  | some cause => e.headline ++ ": " ++ cause
  | none => e.headline

def reportLine (e : CommandError) : String :=
  "Error: " ++ e.headline

/-- What the error output shows: the error and, on a line of its own, its cause. -/
def report (e : CommandError) : String :=
  match e.cause? with
  | some cause => e.reportLine ++ "\n\nCaused by:\n    " ++ cause
  | none => e.reportLine

end CommandError
end HueSaturation
