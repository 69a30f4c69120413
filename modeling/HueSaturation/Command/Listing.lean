import HueSaturation.Edit.Adjustment
import HueSaturation.Edit.Saved

/-!
# The listing of controls

* `Listing.text`    the controls of a version and their ranges, a line each;
* `Listing.json`    the same for machines.
-/

namespace HueSaturation
namespace Listing

def entries (a : Adjustment) : List (Control × Float32 × Slider) :=
  a.panel.keys.filterMap fun k => do
    return (k, ← a.panel.value k, ← a.panel.sliders.get k)

def line (k : Control) (s : Slider) : String :=
  "  " ++ padRight 12 k.name ++ " [" ++ padLeft 5 (plainText s.min) ++ ", "
    ++ padLeft 4 (plainText s.max) ++ "]  default " ++ plainText s.default ++ "  step "
    ++ plainText s.step ++ (if s.logarithmic then "  log" else "") ++ "\n"

def text (v : Version) : String :=
  let a := Adjustment.create v
  a.version.typeName ++ "\n" ++ joined "" ((entries a).map fun (k, _, s) => line k s)

def record (k : Control) (value : Float32) (s : Slider) : Report :=
  .record <| [("key", k.toReport), ("name", .text k.name), ("value", .float value)] ++ s.fields

/-- The controls of a version as JSON. The state that all defaults make is always a neutral edit. -/
def json (v : Version) : String :=
  let a := Adjustment.create v
  Report.pretty <| .record
    [ ("version", .text a.version.typeName),
      ("neutral_default", .flag true),
      ("parameters", .list ((entries a).map fun (k, value, s) => record k value s)) ]

end Listing
end HueSaturation
