import HueSaturation.Color.Matrix

/-!
# Effects that are matrices

Saturation, luminosity and contrast are affine in the pixel. Each is a matrix, and a list of them is
one matrix: effects are appended in the order in which they apply.

* `saturation k`      moves a pixel from its luma (`k = 0`) through itself (`k = 1`) and beyond;
* `contrast`          `out = (in - pivot) * slope + pivot`, with slope `2 ^ (amount / 63.5)` and
                      the pivot at mid gray after the luminosity scale;
* `Effect α`          one effect with its amounts;
* `Effect.compose`    the matrix of a list of effects after a given one.
-/

namespace HueSaturation

variable {α : Type} [Scalar α]

namespace ColorMatrix

/-- Each channel moves away from the luma by the factor `k`. -/
def saturation (k : α) : ColorMatrix α :=
  let rest := 1.0 - k
  let r := rest * 0.2126
  let g := rest * 0.7152
  let b := rest * 0.0722
  { red := ⟨r + k, g, b, 0.0⟩
    green := ⟨r, g + k, b, 0.0⟩
    blue := ⟨r, g, b + k, 0.0⟩
    one := ⟨0.0, 0.0, 0.0, 1.0⟩ }

/-- The slope of a contrast amount: `63.5` doubles it. -/
def contrastSlope (fns : Elementary α) (amount : α) : α :=
  fns.exp2 (amount / 63.5)

/-- Mid gray after a luminosity setting: the value that contrast keeps. -/
def contrastPivot (luminosity : α) : α :=
  0.5 * (luminosity / 100.0 + 1.0)

/-- The contrast curve. A pivot below `1e-4` leaves nothing to pivot around, and a slope beyond the
finite numbers no curve: then it is the identity. -/
def contrast (fns : Elementary α) (amount luminosity : α) : ColorMatrix α :=
  let pivot := contrastPivot luminosity
  let slope := contrastSlope fns amount
  if Scalar.le 0.0001 pivot && Scalar.isFinite slope then
    let offset := pivot * (1.0 - slope)
    { red := ⟨slope, 0.0, 0.0, offset⟩
      green := ⟨0.0, slope, 0.0, offset⟩
      blue := ⟨0.0, 0.0, slope, offset⟩
      one := ⟨0.0, 0.0, 0.0, 1.0⟩ }
  else identity

end ColorMatrix

/-- An effect on colors that is a matrix. -/
inductive Effect (α : Type) where
  /-- saturation by a factor -/
  | saturate (factor : α)
  /-- each channel by a factor of its own -/
  | scale (r g b : α)
  /-- contrast by an amount, pivoted on a luminosity setting -/
  | contrast (amount luminosity : α)
deriving Repr

namespace Effect

def matrix (fns : Elementary α) : Effect α → ColorMatrix α
  | saturate k => .saturation k
  | scale r g b => .diagonal r g b
  | contrast amount luminosity => .contrast fns amount luminosity

def after (fns : Library α) (m : ColorMatrix α) (e : Effect α) : ColorMatrix α :=
  fns.compose m (e.matrix fns)

/-- The matrix of `start` and then all effects of a list, first to last. -/
def compose (fns : Library α) (start : ColorMatrix α) (effects : List (Effect α)) :
    ColorMatrix α :=
  effects.foldl (after fns) start

@[simp] theorem compose_nil (fns : Library α) (m : ColorMatrix α) : compose fns m [] = m := rfl

@[simp] theorem compose_cons (fns : Library α) (m : ColorMatrix α) (e : Effect α)
    (es : List (Effect α)) : compose fns m (e :: es) = compose fns (after fns m e) es := rfl

end Effect
end HueSaturation
