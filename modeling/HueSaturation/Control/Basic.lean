import HueSaturation.Text.Letters

/-!
# The five controls

* `Control`               hue, saturation, vibrance, luminosity and contrast, in slot order;
* `Control.name`, `key`   its name on screen and in saved files, with `ofName?` and `ofKey?`;
* `PerControl α`          one value for each control, with `get`, `set` and their laws.
-/

namespace HueSaturation

/-- A control of the hue/saturation operator. -/
inductive Control where
  /-- rotation of the hue, in degrees -/
  | hue
  /-- saturation of the whole image -/
  | saturation
  /-- saturation weighted toward muted pixels -/
  | vibrance
  /-- brightness scale -/
  | luminosity
  /-- contrast around mid gray -/
  | contrast
deriving DecidableEq, Repr

namespace Control

def all : List Control :=
  [hue, saturation, vibrance, luminosity, contrast]

def slot : Control → Nat
  | hue => 0
  | saturation => 1
  | vibrance => 2
  | luminosity => 3
  | contrast => 4

/-- The name next to the slider. -/
def name : Control → String
  | hue => "Hue"
  | saturation => "Saturation"
  | vibrance => "Vibrance"
  | luminosity => "Luminosity"
  | contrast => "Contrast"

def key : Control → String
  | hue => "hue"
  | saturation => "saturation"
  | vibrance => "vibrance"
  | luminosity => "luminosity"
  | contrast => "contrast"

def ofName? (s : String) : Option Control :=
  all.find? fun k => equalIgnoringCase k.name s

def ofKey? (s : String) : Option Control :=
  all.find? fun k => k.key = s

theorem mem_all (k : Control) : k ∈ all := by
  cases k <;> decide

end Control

structure PerControl (α : Type) where
  hue : α
  saturation : α
  vibrance : α
  luminosity : α
  contrast : α
deriving DecidableEq, BEq, Repr

namespace PerControl

variable {α β : Type}

def const (x : α) : PerControl α :=
  ⟨x, x, x, x, x⟩

def get (v : PerControl α) : Control → α
  | .hue => v.hue
  | .saturation => v.saturation
  | .vibrance => v.vibrance
  | .luminosity => v.luminosity
  | .contrast => v.contrast

def set (v : PerControl α) (k : Control) (x : α) : PerControl α :=
  match k with
  | .hue => { v with hue := x }
  | .saturation => { v with saturation := x }
  | .vibrance => { v with vibrance := x }
  | .luminosity => { v with luminosity := x }
  | .contrast => { v with contrast := x }

def toList (v : PerControl α) : List α :=
  Control.all.map v.get

@[simp] theorem get_const (x : α) (k : Control) : (const x).get k = x := by
  cases k <;> rfl

@[simp] theorem get_set_self (v : PerControl α) (k : Control) (x : α) :
    (v.set k x).get k = x := by
  cases k <;> rfl

theorem get_set_of_ne (v : PerControl α) {j k : Control} (x : α) (h : j ≠ k) :
    (v.set k x).get j = v.get j := by
  cases j <;> cases k <;> first | rfl | exact absurd rfl h

theorem get_set (v : PerControl α) (j k : Control) (x : α) :
    (v.set k x).get j = if j = k then x else v.get j := by
  split
  · next h => rw [h, get_set_self]
  · next h => rw [get_set_of_ne v x h]

@[ext] theorem ext_get {u v : PerControl α} (h : ∀ k, u.get k = v.get k) : u = v := by
  obtain ⟨_, _, _, _, _⟩ := u
  obtain ⟨_, _, _, _, _⟩ := v
  have h₁ := h .hue
  have h₂ := h .saturation
  have h₃ := h .vibrance
  have h₄ := h .luminosity
  have h₅ := h .contrast
  simp only [get] at h₁ h₂ h₃ h₄ h₅
  subst h₁ h₂ h₃ h₄ h₅
  rfl

@[simp] theorem set_get (v : PerControl α) (k : Control) : v.set k (v.get k) = v := by
  cases k <;> rfl

end PerControl
end HueSaturation
