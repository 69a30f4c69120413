import HueSaturation.Command.Request

/-!
# The matrices of an edit as text

* `Matrices.block`   a matrix, a row per line;
* `Matrices.text`    the stages that the given values make.
-/

namespace HueSaturation
namespace Matrices

/-- A number in a field of ten characters, with six places. -/
def field (x : Float32) : String :=
  padLeft 10 (fixedPlaces 6 x)

def line (u : Row Float32) : String :=
  "  [" ++ field u.r ++ " " ++ field u.g ++ " " ++ field u.b ++ " | " ++ field u.c ++ "]\n"

def block (title : String) (m : BandMatrix Float32) : String :=
  title ++ ":\n" ++ line m.red ++ line m.green ++ line m.blue

def ofPipeline (p : Pipeline Float32) : String :=
  block "band combine" p.band
    ++ (match p.vibrance with
      | some v => block "vibrance" v.matrix
      | none => "vibrance: off\n")
    ++ "hue turn: " ++ fixedPlaces 6 p.hueTurn ++ "\n"

def text (fns : Library Float32) (r : Request) : Except CommandError String := do
  let (built, adjustment) := (← r.build).pipeline fns
  return adjustment.version.typeName ++ "\n" ++ ofPipeline built.pipeline

end Matrices
end HueSaturation
