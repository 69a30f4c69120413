import HueSaturation.Number.Scalar

/-!
# Pixels

* `Rgb α`             a pixel with red, green and blue channels;
* `Rgb.luma`          its Rec.709 luma;
* `Rgb.spread`        the distance between its largest and its smallest channel;
* `Rgb.unit`          every channel cut down to `[0, 1]`.
-/

namespace HueSaturation

/-- A pixel. The channels of a valid pixel lie in `[0, 1]`. -/
structure Rgb (α : Type) where
  r : α
  g : α
  b : α
deriving DecidableEq, BEq, Repr

namespace Rgb

variable {α β γ : Type}

def map (f : α → β) (p : Rgb α) : Rgb β :=
  ⟨f p.r, f p.g, f p.b⟩

def zip (f : α → β → γ) (p : Rgb α) (q : Rgb β) : Rgb γ :=
  ⟨f p.r q.r, f p.g q.g, f p.b q.b⟩

def gray (y : α) : Rgb α :=
  ⟨y, y, y⟩

def all (f : α → Bool) (p : Rgb α) : Bool :=
  f p.r && f p.g && f p.b

@[simp] theorem map_r (f : α → β) (p : Rgb α) : (p.map f).r = f p.r := rfl
@[simp] theorem map_g (f : α → β) (p : Rgb α) : (p.map f).g = f p.g := rfl
@[simp] theorem map_b (f : α → β) (p : Rgb α) : (p.map f).b = f p.b := rfl
@[simp] theorem zip_r (f : α → β → γ) (p : Rgb α) (q : Rgb β) : (p.zip f q).r = f p.r q.r := rfl
@[simp] theorem zip_g (f : α → β → γ) (p : Rgb α) (q : Rgb β) : (p.zip f q).g = f p.g q.g := rfl
@[simp] theorem zip_b (f : α → β → γ) (p : Rgb α) (q : Rgb β) : (p.zip f q).b = f p.b q.b := rfl

section
variable [Scalar α]

def unit (p : Rgb α) : Rgb α :=
  p.map Scalar.unit

/-- The Rec.709 luma. Every stage that speaks of luma uses these weights. -/
def luma (p : Rgb α) : α :=
  p.r * 0.2126 + p.g * 0.7152 + p.b * 0.0722

/-- The distance between the largest and the smallest channel: `0` for grays, `1` for the full
primaries. -/
def spread (p : Rgb α) : α :=
  Scalar.greatest (Scalar.greatest p.r p.g) p.b - Scalar.least (Scalar.least p.r p.g) p.b

end
end Rgb
end HueSaturation
