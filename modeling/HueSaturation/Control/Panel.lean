import HueSaturation.Control.Settings
import HueSaturation.Control.Slider

/-!
# The panel of registered controls

The panel is owned by the thread that edits. Rendering threads never see it: they load the word in
which it publishes its settings. A host can have itself told of accepted changes.

* `Panel`              the registered controls, their sliders and values, the published word;
* `Signal`             what an operation does outside the panel: store the word, call the listener;
* `Outcome α`          the result of an operation, the panel after it, and its signals in order;
* `Panel.register`, `configure`, `set`, `setAll`, `listen`   the operations;
* `Panel.stage`        what one new value would change, without changing it.

An operation that fails changes nothing and sends no signal.
-/

namespace HueSaturation

/-- Why an operation on a panel failed. -/
inductive PanelError where
  /-- the control is not registered -/
  | unregistered (control : Control)
  /-- the slider cannot be used -/
  | badSlider (control : Control) (fault : SliderFault)
  /-- the value is infinite or "not a number" -/
  | notFinite (control : Control) (value : Float32)
  /-- the slider in use holds no whole unit to round to -/
  | noWholeUnit (control : Control)

def PanelError.message : PanelError → String
  | unregistered k => "parameter " ++ k.name ++ " is not registered"
  | badSlider k fault => "invalid slider config for " ++ k.name ++ ": " ++ fault.message
  | notFinite k v => "non-finite value " ++ plainText v ++ " for " ++ k.name
  | noWholeUnit k => "slider of " ++ k.name ++ " holds no whole unit"

/-- What became of a new value. -/
inductive Update where
  /-- the rounded value is the stored one -/
  | unchanged
  /-- the rounded value is stored now -/
  | changed (value : Float32)
  /-- the control is not registered, the value ignored -/
  | inactive

inductive Signal where
  /-- the word that readers load is stored -/
  | store (word : UInt64)
  /-- the listener of this name is called -/
  | notify (listener : String) (control : Control) (value : Float32)

structure Panel where
  /-- the registered controls, in the order of their registration -/
  keys : List Control
  /-- the slider of every registered control -/
  sliders : PerControl (Option Slider)
  current : Settings
  /-- how often a change was published -/
  revision : UInt64
  /-- the published word -/
  word : UInt64
  /-- the name of the listener, if one is installed -/
  listener : Option String

structure Outcome (α : Type) where
  result : Except PanelError α
  panel : Panel
  /-- what was done outside the panel, first to last -/
  signals : List Signal

namespace Panel

def empty : Panel where
  keys := []
  sliders := .const none
  current := .neutral
  revision := 0
  word := Settings.neutral.pack
  listener := none

def isRegistered (p : Panel) (k : Control) : Bool :=
  (p.sliders.get k).isSome

def value (p : Panel) (k : Control) : Option Float32 :=
  if p.isRegistered k then some (p.current.value k) else none

/-- The settings that a reader finds in the published word. -/
def readerSettings (p : Panel) : Settings :=
  .unpack p.word

def publish (p : Panel) (next : Settings) : Panel :=
  { p with current := next, revision := p.revision + 1, word := next.pack }

/-- The call of the listener, if one is installed. -/
def notify (p : Panel) (k : Control) (v : Float32) : List Signal :=
  match p.listener with
  | some name => [.notify name k v]
  | none => []

def fail {α : Type} (p : Panel) (e : PanelError) : Outcome α :=
  ⟨.error e, p, []⟩

/-- The settings after `v` for the control `k`, and what becomes of `v`: it is rounded to a whole
unit of the slider and compared with the value in `base`. -/
def stage (p : Panel) (base : Settings) (k : Control) (v : Float32) :
    Except PanelError (Settings × Update) :=
  if v.isFinite then
    match p.sliders.get k with
    | none => .ok (base, .inactive)
    | some slider =>
      match slider.round? v with
      | none => .error (.noWholeUnit k)
      | some r =>
        if r == base.value k then .ok (base, .unchanged) else .ok (base.set k r, .changed r)
  else .error (.notFinite k v)

/-- Registers a control with its first slider. A control that is registered already stays as it
is, and the answer is `false`. -/
def register (p : Panel) (k : Control) : Outcome Bool :=
  if p.isRegistered k then ⟨.ok false, p, []⟩
  else ⟨.ok true, { p with keys := p.keys ++ [k], sliders := p.sliders.set k (some k.slider) }, []⟩

/-- Replaces the slider of a registered control and resets its value to the new default. A value
that changes is published; the listener is not called. -/
def configure (p : Panel) (k : Control) (slider : Slider) : Outcome Unit :=
  if p.isRegistered k then
    match slider.fault? with
    | some fault => p.fail (.badSlider k fault)
    | none =>
      match slider.round? slider.default with
      | none => p.fail (.noWholeUnit k)
      | some v =>
        let changed := { p with sliders := p.sliders.set k (some slider) }
        let next := p.current.set k v
        if next = p.current then ⟨.ok (), changed, []⟩
        else
          let published := changed.publish next
          ⟨.ok (), published, [.store published.word]⟩
  else p.fail (.unregistered k)

/-- Rounds and stores one value. A change is published, then the listener is called. -/
def set (p : Panel) (k : Control) (v : Float32) : Outcome Update :=
  match p.stage p.current k v with
  | .error e => p.fail e
  | .ok (next, .changed r) =>
    let published := p.publish next
    ⟨.ok (.changed r), published, .store published.word :: published.notify k r⟩
  | .ok (_, update) => ⟨.ok update, p, []⟩

/-- The last value that a list of entries gives for each control. -/
def lastValues (entries : List (Control × Float32)) : PerControl (Option Float32) :=
  entries.foldl (fun last (k, v) => last.set k (some v)) (.const none)

/-- Stages the given values in slot order, each on top of the ones before. -/
def stageAll (p : Panel) (last : PerControl (Option Float32)) :
    Except PanelError (Settings × PerControl (Option Update)) :=
  Control.all.foldlM (fun (next, updates) k =>
    match last.get k with
    | none => .ok (next, updates)
    | some v => (p.stage next k v).map fun (next, update) => (next, updates.set k (some update)))
    (p.current, .const none)

/-- Rounds and stores several values and publishes them together. If one of them is not finite
nothing is stored. The last value for a control wins, and every entry for that control has its
outcome. The listener is called once for each control that changed, in slot order. -/
def setAll (p : Panel) (entries : List (Control × Float32)) : Outcome (List Update) :=
  match entries.find? fun (_, v) => !v.isFinite with
  | some (k, v) => p.fail (.notFinite k v)
  | none =>
    match p.stageAll (lastValues entries) with
    | .error e => p.fail e
    | .ok (next, updates) =>
      let answer := entries.map fun (k, _) => (updates.get k).getD .inactive
      if next = p.current then ⟨.ok answer, p, []⟩
      else
        let published := p.publish next
        let calls := Control.all.flatMap fun k =>
          match updates.get k with
          | some (.changed r) => published.notify k r
          | _ => []
        ⟨.ok answer, published, .store published.word :: calls⟩

def listen (p : Panel) (name : String) : Outcome Unit :=
  ⟨.ok (), { p with listener := some name }, []⟩

def describe (p : Panel) : String :=
  "ParameterSet \x7b keys: [" ++ joined ", " (p.keys.map Control.name) ++ "], current: "
    ++ p.current.describe ++ ", revision: " ++ p.revision.toNat.repr ++ ", listener: "
    ++ (if p.listener.isSome then "true" else "false") ++ " \x7d"

end Panel
end HueSaturation
