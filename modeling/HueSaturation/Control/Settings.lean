import HueSaturation.Control.Basic
import HueSaturation.Number.Binary32

/-!
# Settings

The values of all controls are whole numbers of at most 12 bits, so that all five fit into one word
of 64 bits. Who loads that word sees values that were stored together.

* `Settings`            one whole number per control;
* `Settings.value`      the value of a control as a scalar;
* `Settings.set`        a value rounded, cut down to what fits, and put in its slot;
* `Settings.pack`       the word: slot `i` has bits `12 * i` to `12 * i + 11`, in two's complement;
* `Settings.unpack`     the values in a word.
-/

namespace HueSaturation

/-- The values of all controls. -/
structure Settings where
  values : PerControl Int16
deriving DecidableEq, Repr

namespace Settings

def neutral : Settings :=
  ⟨.const 0⟩

def value {α : Type} [Scalar α] (s : Settings) (k : Control) : α :=
  Scalar.ofInt (s.values.get k).toInt

/-- `v` as a stored value: the nearest whole number in `[-2047, 2047]`, a half away from zero; zero
for what is not finite. -/
def slotValue (v : Float32) : Int16 :=
  if v.isFinite then
    Int16.ofInt (Binary32.toInt (Scalar.clamp (-2047.0) 2047.0 (Binary32.round v)))
  else 0

def set (s : Settings) (k : Control) (v : Float32) : Settings :=
  ⟨s.values.set k (slotValue v)⟩

def isNeutral (s : Settings) : Bool :=
  s = neutral

def encodeSlot (v : Int16) : Nat :=
  (v.toInt % 4096).toNat

/-- The value of 12 bits: from `2048` on they are negative. -/
def decodeSlot (n : Nat) : Int16 :=
  Int16.ofInt (if n < 2048 then n else n - 4096)

def pack (s : Settings) : UInt64 :=
  let v := s.values
  UInt64.ofNat (encodeSlot v.hue + 4096 * (encodeSlot v.saturation + 4096 * (encodeSlot v.vibrance
    + 4096 * (encodeSlot v.luminosity + 4096 * encodeSlot v.contrast))))

/-- The 12 bits of slot `i` of a word. -/
def slotBits (word : UInt64) (i : Nat) : Nat :=
  word.toNat / Nat.pow 4096 i % 4096

def unpack (word : UInt64) : Settings :=
  ⟨⟨decodeSlot (slotBits word 0), decodeSlot (slotBits word 1), decodeSlot (slotBits word 2),
    decodeSlot (slotBits word 3), decodeSlot (slotBits word 4)⟩⟩

def toList (s : Settings) : List Int16 :=
  s.values.toList

def describe (s : Settings) : String :=
  "ParamSnapshot \x7b values: ["
    ++ joined ", " (s.toList.map fun v => v.toInt.repr) ++ "] \x7d"

end Settings
end HueSaturation
