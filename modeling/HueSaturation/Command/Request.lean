import HueSaturation.Command.Error
import HueSaturation.Edit.Adjustment

/-!
# Values on a command line

* `Request`          a version and the values given for controls;
* `Request.given`    the given values in slot order;
* `Request.build`    the adjustment with these values. A control that the version does not have is
                     an error: no given value is ignored.
-/

namespace HueSaturation

/-- The version and the control values that a command line gives. -/
structure Request where
  version : Version := .latest
  values : PerControl (Option Float32) := .const none

namespace Request

def given (r : Request) : List (Control × Float32) :=
  Control.all.filterMap fun k => (r.values.get k).map fun v => (k, v)

/-- The given controls that the version does not have. -/
def unavailable (r : Request) : List Control :=
  (r.given.map Prod.fst).filter fun k => !r.version.isActive k

def build (r : Request) : Except CommandError Adjustment :=
  if r.unavailable.isEmpty then
    let (result, _, adjustment) := (Adjustment.create r.version).onPanel (·.setAll r.given)
    match result with
    | .ok _ => .ok adjustment
    | .error e => .error (.refused e)
  else .error (.unavailable r.unavailable r.version)

end Request
end HueSaturation
