import HueSaturation.Control.Basic
import HueSaturation.Number.Text

/-!
# Sliders

* `Slider`            range, default and presentation of one control;
* `Slider.round?`     the nearest whole unit of the range; `none` where the range holds none;
* `Slider.accepts`    a value that is whole and in range;
* `Slider.fault?`     what makes a slider unfit for use: the first of `SliderFault`'s causes.
-/

namespace HueSaturation

structure Slider where
  /-- the smallest accepted value -/
  min : Float32
  /-- the largest accepted value -/
  max : Float32
  /-- the value after a reset -/
  default : Float32 := 0.0
  /-- the increment -/
  step : Float32 := 1.0
  /-- the slider moves on a logarithmic scale -/
  logarithmic : Bool := false
  /-- the number format next to it -/
  displayFormat : String := "0"
deriving BEq

/-- The largest magnitude of a stored value. -/
def maxValue : Int := 2047

/-- What is wrong with a slider. -/
inductive SliderFault where
  /-- a number is infinite or "not a number" -/
  | notFinite
  /-- the range is empty -/
  | inverted (min max : Float32)
  /-- the increment is zero or negative -/
  | stepNotPositive
  /-- the range reaches beyond what can be stored -/
  | tooWide (min max : Float32)
  /-- the range lies between two whole numbers -/
  | noWholeValue (min max : Float32)
  /-- the default is not in the range -/
  | defaultOutside

def SliderFault.message : SliderFault → String
  | notFinite => "values must be finite"
  | inverted min max => "min " ++ plainText min ++ " exceeds max " ++ plainText max
  | stepNotPositive => "step must be positive"
  | tooWide min max =>
    "range [" ++ plainText min ++ ", " ++ plainText max ++ "] exceeds +/-" ++ maxValue.repr
  | noWholeValue min max =>
    "range [" ++ plainText min ++ ", " ++ plainText max ++ "] holds no whole value"
  | defaultOutside => "default outside range"

namespace Slider

/-- The slider over `[min, max]` with default `0` and step `1`. -/
def linear (min max : Float32) : Slider :=
  { min, max }

/-- `v` rounded to the nearest whole unit, a half away from zero, and cut down to the whole units of
the range. `none` if the range holds no whole unit, or a bound is "not a number". -/
def round? (s : Slider) (v : Float32) : Option Float32 :=
  let lo := Binary32.ceil s.min
  let hi := Binary32.floor s.max
  if lo ≤ hi then some (Scalar.clamp lo hi (Binary32.round v)) else none

def accepts (s : Slider) (v : Float32) : Bool :=
  v == Binary32.round v && Scalar.within s.min s.max v

def fault? (s : Slider) : Option SliderFault :=
  let limit := Float32.ofInt maxValue
  if !(s.min.isFinite && s.max.isFinite && s.default.isFinite && s.step.isFinite) then
    some .notFinite
  else if s.max < s.min then some (.inverted s.min s.max)
  else if s.step ≤ 0.0 then some .stepNotPositive
  else if Binary32.round s.min < -limit || limit < Binary32.round s.max then
    some (.tooWide s.min s.max)
  else if Binary32.floor s.max < Binary32.ceil s.min then some (.noWholeValue s.min s.max)
  else if !Scalar.within s.min s.max s.default then some .defaultOutside
  else none

end Slider

def Control.slider : Control → Slider
  | hue => .linear (-180.0) 180.0
  | saturation | vibrance | luminosity => .linear (-100.0) 100.0
  | contrast => .linear (-127.0) 127.0

end HueSaturation
