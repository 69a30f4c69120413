import HueSaturation.Control.Slider
import HueSaturation.Edit.Version
import HueSaturation.Json.Reader
import HueSaturation.Json.Report

/-!
# Saved forms

Sliders, controls and versions in JSON.

* `Slider.ofJson?`, `toReport`     an object with six fields; an array of the six is read as well;
* `Control.ofJson?`, `toReport`    a name; an object with the name and nothing in it is read too;
* `Version.ofJson?`, `toReport`    the same.
-/

namespace HueSaturation

namespace Json

def float? : Json → Option Float32
  | number n => n.toFloat32Stepwise?
  | _ => none

def flag? : Json → Option Bool
  | bool b => some b
  | _ => none

def text? : Json → Option String
  | string s => s
  | _ => none

/-- A name without anything to it. -/
def name? : Json → Option String
  | string s => s
  | object [(name, null)] => name
  | _ => none

/-- The value of the only member with a name. -/
def only? (name : String) (members : List (Option String × Json)) : Option Json :=
  match named name members with
  | [v] => some v
  | _ => none

end Json

namespace Slider

def fieldNames : List String :=
  ["min", "max", "default", "step", "logarithmic", "display_format"]

def ofFields? : List Json → Option Slider
  | [min, max, initial, step, logarithmic, displayFormat] => do
    return { min := ← min.float?, max := ← max.float?, default := ← initial.float?,
             step := ← step.float?, logarithmic := ← logarithmic.flag?,
             displayFormat := ← displayFormat.text? }
  | _ => none

/-- The slider of a JSON value. Each field has to occur once; other fields do not count. -/
def ofJson? : Json → Option Slider
  | .array fields => ofFields? fields
  | .object members => do
    if members.any fun m => m.1.isNone then none
    else ofFields? (← fieldNames.mapM fun name => Json.only? name members)
  | _ => none

def fields (s : Slider) : List (String × Report) :=
  fieldNames.zip [.float s.min, .float s.max, .float s.default, .float s.step, .flag s.logarithmic,
    .text s.displayFormat]

def toReport (s : Slider) : Report :=
  .record s.fields

end Slider

def Control.ofJson? (v : Json) : Option Control := do
  Control.ofKey? (← v.name?)

def Control.toReport (k : Control) : Report :=
  .text k.key

def Version.ofJson? (v : Json) : Option Version := do
  Version.ofKey? (← v.name?)

def Version.toReport (v : Version) : Report :=
  .text v.key

end HueSaturation
