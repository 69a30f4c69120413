import HueSaturation.Control.Panel
import HueSaturation.Edit.Pipeline
import HueSaturation.Edit.Version

/-!
# Adjustments

An adjustment is an edit in the making: a panel with the controls of one version, and the pipeline
of its settings, which is built when it is asked for and kept until the settings change.

* `Adjustment`            version, panel and kept pipeline;
* `Adjustment.create`     every control of a version at its default;
* `Adjustment.onPanel`    an operation on its panel;
* `Adjustment.pipeline`   the pipeline of the current settings, built only after a change;
* `Adjustment.render`, `renderTiled`   the edit applied to an image.
-/

namespace HueSaturation

/-- A pipeline with the number of its build: two pipelines with one number are one object. -/
structure Built where
  number : Nat
  pipeline : Pipeline Float32

/-- An edit in the making. -/
structure Adjustment where
  version : Version
  panel : Panel
  /-- the kept pipeline, and the revision of the panel that it was built for -/
  kept : Option (UInt64 × Built)
  /-- how many pipelines were built -/
  builds : Nat

namespace Adjustment

/-- The controls of a version, registered in the order in which they are shown. -/
def registered (version : Version) : Panel :=
  version.controls.foldl (fun p k => (p.register k).panel) .empty

def create (version : Version) : Adjustment :=
  { version, panel := registered version, kept := none, builds := 0 }

/-- An operation on the panel: its result and signals, and the adjustment after it. -/
def onPanel {α : Type} (a : Adjustment) (operation : Panel → Outcome α) :
    Except PanelError α × List Signal × Adjustment :=
  let outcome := operation a.panel
  (outcome.result, outcome.signals, { a with panel := outcome.panel })

def fresh? (a : Adjustment) : Option Built :=
  match a.kept with
  | some (revision, built) => if revision = a.panel.revision then some built else none
  | none => none

def isStale (a : Adjustment) : Bool :=
  a.fresh?.isNone

/-- The pipeline of the current settings. It is built only if the kept one is out of date. -/
def pipeline (a : Adjustment) (fns : Library Float32) : Built × Adjustment :=
  match a.fresh? with
  | some built => (built, a)
  | none =>
    let built := ⟨a.builds, .ofSettings fns a.panel.current⟩
    (built, { a with kept := some (a.panel.revision, built), builds := a.builds + 1 })

def render (a : Adjustment) (fns : Library Float32) (host : Host (Except RasterError))
    (back : RgbImage) (s : Blend) : Except RasterError RgbImage × Adjustment :=
  let (built, a) := a.pipeline fns
  (built.pipeline.render fns host back s, a)

def renderTiled (a : Adjustment) (fns : Library Float32) (host : Host (Except RasterError))
    (back : RgbImage) (s : Blend) (edge : UInt32) :
    Except (Failure RasterError) RgbImage × Adjustment :=
  let (built, a) := a.pipeline fns
  (built.pipeline.renderTiled fns host back s edge, a)

end Adjustment
end HueSaturation
