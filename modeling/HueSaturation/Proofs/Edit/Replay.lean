import HueSaturation.Proofs.Control.Staged
import HueSaturation.Proofs.Edit.Kept

/-!
# An edit of a version, replayed on the latest one

A version is a part of the latest one: an edit made with it goes the same way on the latest version
when the calls for the controls that it lacks are left out.

* `Version.trim`         what is left of a call without the controls that a version lacks;
* `Panel.Restricts`      a panel that has some of the controls of another one, and else its state;
* `Outcome.Replays`      two outcomes that are the same to the outside;
* `Panel.Answers`        the results of a version against those of the latest one;
* `Adjustment.Restricts`   the same for edits, with the pipeline that they keep;
* `replays_on_latest`    an edit replayed, and what never is in the pipeline of an old version.
-/

namespace HueSaturation

/-- An operation that an edit offers, with finite values. -/
def Panel.Call.isEdit : Panel.Call → Bool
  | register _ => false
  | configure .. => true
  | set _ x => x.isFinite
  | setAll entries => entries.all fun e => e.2.isFinite
  | listen _ => true

/-- What is left of a call without the controls that the version lacks. -/
def Version.trim (v : Version) : Panel.Call → Option Panel.Call
  | .configure k slider => if v.isActive k then some (.configure k slider) else none
  | .set k x => if v.isActive k then some (.set k x) else none
  | .setAll entries => some (.setAll (entries.filter fun e => v.isActive e.1))
  | c => some c

/-- The panel `p` has the controls of the version from `q`, and what is stored in `q`. -/
structure Panel.Restricts (v : Version) (p q : Panel) : Prop where
  sliders : ∀ k, p.sliders.get k = if v.isActive k then q.sliders.get k else none
  current : p.current = q.current
  revision : p.revision = q.revision
  word : p.word = q.word
  listener : p.listener = q.listener

/-- Two outcomes that are the same to the outside. -/
structure Outcome.Replays {α : Type} (v : Version) (o o' : Outcome α) : Prop where
  result : o.result = o'.result
  signals : o.signals = o'.signals
  panel : o.panel.Restricts v o'.panel

namespace Panel

variable {v : Version} {p q : Panel} {k : Control}

theorem Restricts.publish (h1 : p.Restricts v q) (s : Settings) :
    (p.publish s).Restricts v (q.publish s) where
  sliders := h1.sliders
  current := rfl
  revision := congrArg (· + 1) h1.revision
  word := rfl
  listener := h1.listener

theorem Restricts.slider (h1 : p.Restricts v q) (hk : v.isActive k) (slider : Slider) :
    ({ p with sliders := p.sliders.set k (some slider) } : Panel).Restricts v
      { q with sliders := q.sliders.set k (some slider) } where
  sliders j := by
    rw [PerControl.get_set, PerControl.get_set, h1.sliders]
    by_cases hj : j = k
    · rw [if_pos hj, if_pos hj, hj, if_pos hk]
    · rw [if_neg hj, if_neg hj]
  current := h1.current
  revision := h1.revision
  word := h1.word
  listener := h1.listener

theorem Restricts.notify (h1 : p.Restricts v q) (k : Control) (x : Float32) :
    p.notify k x = q.notify k x := by
  rw [Panel.notify, Panel.notify, h1.listener]

theorem Restricts.isRegistered (h1 : p.Restricts v q) (hk : v.isActive k) :
    p.isRegistered k = q.isRegistered k := by
  rw [Panel.isRegistered, Panel.isRegistered, h1.sliders, if_pos hk]

theorem Restricts.reply (h1 : p.Restricts v q) (hk : v.isActive k) (old : Int16) (x : Float32) :
    p.reply k old x = q.reply k old x := by
  rw [Panel.reply, Panel.reply, h1.sliders, if_pos hk]

theorem replays_fail {α : Type} (h1 : p.Restricts v q) (e : PanelError) :
    (p.fail e : Outcome α).Replays v (q.fail e) :=
  ⟨rfl, rfl, h1⟩

/-! ## one control -/

theorem set_replays (h1 : p.Restricts v q) (hp : p.Valid) (hq : q.Valid) (hk : v.isActive k)
    {x : Float32} (hx : x.isFinite) : (p.set k x).Replays v (q.set k x) := by
  rw [set_eq hp.toFormed k hx, set_eq hq.toFormed k hx, h1.reply hk, h1.current]
  cases q.reply k (q.current.values.get k) x with
  | mk new update =>
    cases update with
    | changed r =>
      refine ⟨rfl, ?_, h1.publish _⟩
      show Signal.store _ :: p.notify k r = Signal.store _ :: q.notify k r
      rw [h1.notify]
      rfl
    | unchanged => exact ⟨rfl, rfl, h1⟩
    | inactive => exact ⟨rfl, rfl, h1⟩

theorem set_lacking (h1 : p.Restricts v q) (hk : ¬ v.isActive k) {x : Float32} (hx : x.isFinite) :
    p.set k x = ⟨.ok .inactive, p, []⟩ := by
  have h2 : p.sliders.get k = none := by rw [h1.sliders, if_neg hk]
  rw [set, stage, if_pos hx, h2]

theorem configure_replays (h1 : p.Restricts v q) (hk : v.isActive k) (slider : Slider) :
    (p.configure k slider).Replays v (q.configure k slider) := by
  rw [configure, configure, h1.isRegistered hk, h1.current]
  split
  · cases slider.fault? with
    | some fault => exact replays_fail h1 _
    | none =>
      cases slider.round? slider.default with
      | none => exact replays_fail h1 _
      | some x =>
        simp only []
        split
        · exact ⟨rfl, rfl, { h1.slider hk slider with current := rfl }⟩
        · exact ⟨rfl, rfl, (h1.slider hk slider).publish _⟩
  · exact replays_fail h1 _

theorem configure_lacking (h1 : p.Restricts v q) (hk : ¬ v.isActive k) (slider : Slider) :
    p.configure k slider = p.fail (.unregistered k) := by
  have h2 : p.isRegistered k = false := by
    rw [isRegistered, h1.sliders, if_neg hk]
    rfl
  rw [configure, h2]
  rfl

/-! ## batches -/

theorem get_lastValues_filter (f : Control → Bool) (entries : List (Control × Float32))
    (k : Control) :
    (lastValues (entries.filter fun e => f e.1)).get k
      = if f k then (lastValues entries).get k else none := by
  suffices h : ∀ last last' : PerControl (Option Float32),
      (∀ k, last'.get k = if f k then last.get k else none) →
      ((entries.filter fun e => f e.1).foldl (fun last e => last.set e.1 (some e.2)) last').get k
        = if f k then (entries.foldl (fun last e => last.set e.1 (some e.2)) last).get k
          else none from
    h _ _ fun k => by simp
  induction entries with
  | nil => exact fun _ _ h => h k
  | cons e entries ih =>
    intro last last' h
    rw [List.foldl_cons]
    by_cases he : f e.1
    · rw [List.filter_cons, if_pos he, List.foldl_cons]
      refine ih _ _ fun j => ?_
      rw [PerControl.get_set, PerControl.get_set]
      by_cases hj : j = e.1
      · rw [if_pos hj, if_pos hj, hj, if_pos he]
      · rw [if_neg hj, if_neg hj]
        exact h j
    · rw [List.filter_cons, if_neg he]
      refine ih _ _ fun j => ?_
      by_cases hj : j = e.1
      · rw [h, hj, if_neg he, if_neg he]
      · rw [PerControl.get_set_of_ne _ _ hj]
        exact h j

/-- The reply to what a batch says of a control, and to what is left of it. -/
theorem Restricts.replyTo (h1 : p.Restricts v q) (k : Control) (x : Option Float32) :
    p.replyTo k x = if v.isActive k then q.replyTo k x
      else (q.current.values.get k, x.map fun _ => .inactive) := by
  by_cases hk : v.isActive k
  · rw [if_pos hk]
    cases x with
    | none =>
      rw [Panel.replyTo, Panel.replyTo, h1.current]
    | some x =>
      rw [Panel.replyTo, Panel.replyTo, h1.reply hk, h1.current]
  · rw [if_neg hk]
    cases x with
    | none =>
      rw [Panel.replyTo, h1.current]
      rfl
    | some x =>
      have h2 : p.sliders.get k = none := by rw [h1.sliders, if_neg hk]
      rw [Panel.replyTo, reply_of_none h2, h1.current]
      rfl

section
variable {entries : List (Control × Float32)} {next next' : Settings}
  {updates updates' : PerControl (Option Update)}

/-- What a batch and what is left of it store, and their updates: the version answers for the
controls that it lacks. -/
theorem Restricts.slots (h1 : p.Restricts v q)
    (h2 : ∀ k, (next.values.get k, updates.get k) = p.replyTo k ((lastValues entries).get k))
    (h3 : ∀ k, (next'.values.get k, updates'.get k)
      = q.replyTo k ((lastValues (entries.filter fun e => v.isActive e.1)).get k)) (k : Control) :
    next.values.get k = next'.values.get k
      ∧ updates.get k = (if v.isActive k then updates'.get k
        else ((lastValues entries).get k).map fun _ => .inactive)
      ∧ (¬ v.isActive k → updates'.get k = none) := by
  have hk := h2 k
  have hk' := h3 k
  rw [h1.replyTo] at hk
  rw [get_lastValues_filter] at hk'
  by_cases hactive : v.isActive k
  · rw [if_pos hactive] at hk hk' ⊢
    obtain ⟨h4, h5⟩ := Prod.mk.inj (hk.trans hk'.symm)
    exact ⟨h4, h5, fun h => absurd hactive h⟩
  · rw [if_neg hactive] at hk hk' ⊢
    obtain ⟨h4, h5⟩ := Prod.mk.inj hk
    obtain ⟨h6, h7⟩ := Prod.mk.inj hk'
    exact ⟨h4.trans h6.symm, h5, fun _ => h7⟩

theorem Restricts.calls (h1 : p.Restricts v q) {k : Control} {x : Option Float32}
    (h2 : updates.get k = if v.isActive k then updates'.get k else x.map fun _ => .inactive)
    (h3 : ¬ v.isActive k → updates'.get k = none) : p.calls updates k = q.calls updates' k := by
  rw [Panel.calls, Panel.calls, h2]
  by_cases hactive : v.isActive k
  · rw [if_pos hactive]
    simp only [h1.notify]
  · rw [if_neg hactive, h3 hactive]
    cases x <;> rfl

end

/-- A batch and what is left of it store and tell the same. The answers are the same too, next to
those for the controls that the version lacks. -/
theorem setAll_replays (h1 : p.Restricts v q) (hp : p.Valid) (hq : q.Valid)
    {entries : List (Control × Float32)} (h2 : ∀ e ∈ entries, e.2.isFinite) :
    let rest := entries.filter fun e => v.isActive e.1
    (p.setAll entries).signals = (q.setAll rest).signals
      ∧ (p.setAll entries).panel.Restricts v (q.setAll rest).panel
      ∧ ∃ reply : Control → Update,
        (p.setAll entries).result
            = .ok (entries.map fun e => if v.isActive e.1 then reply e.1 else .inactive)
          ∧ (q.setAll rest).result = .ok (rest.map fun e => reply e.1) := by
  intro rest
  have h3 : ∀ e ∈ rest, e.2.isFinite := fun e he => h2 e (List.mem_of_mem_filter he)
  obtain ⟨next, updates, h4, h5⟩ := setAll_eq hp.toFormed h2
  obtain ⟨next', updates', h6, h7⟩ := setAll_eq hq.toFormed h3
  have hslot := h1.slots h4 h6
  have hnext : next = next' := by
    cases next
    cases next'
    exact congrArg Settings.mk (PerControl.ext_get fun k => (hslot k).1)
  have hanswers : (entries.map fun e => (updates.get e.1).getD .inactive)
      = entries.map fun e => if v.isActive e.1 then (updates'.get e.1).getD .inactive
        else .inactive := by
    refine List.map_congr_left fun e _ => ?_
    rw [(hslot e.1).2.1]
    split
    · rfl
    · cases (lastValues entries).get e.1 <;> rfl
  have hcalls : p.calls updates = q.calls updates' :=
    funext fun k => h1.calls (hslot k).2.1 (hslot k).2.2
  rw [h5, h7, hanswers, hnext, h1.current, hcalls]
  split
  · exact ⟨rfl, h1, fun k => (updates'.get k).getD .inactive, rfl, rfl⟩
  · exact ⟨rfl, h1.publish _, fun k => (updates'.get k).getD .inactive, rfl, rfl⟩

/-! ## calls -/

theorem Call.replays (h1 : p.Restricts v q) (hp : p.Valid) (hq : q.Valid) {c : Call}
    (hc : c.isEdit) :
    match v.trim c with
    | some d => (c.outcome p).signals = (d.outcome q).signals
      ∧ (c.outcome p).panel.Restricts v (d.outcome q).panel
    | none => (c.outcome p).signals = [] ∧ (c.outcome p).panel = p := by
  cases c with
  | register j => cases hc
  | configure j slider =>
    by_cases hj : v.isActive j
    · rw [Version.trim, if_pos hj]
      have h2 := configure_replays h1 hj slider
      exact ⟨h2.signals, h2.panel⟩
    · rw [Version.trim, if_neg hj]
      have h2 := configure_lacking h1 hj slider
      exact ⟨congrArg Outcome.signals h2, congrArg Outcome.panel h2⟩
  | set j x =>
    by_cases hj : v.isActive j
    · rw [Version.trim, if_pos hj]
      have h2 := set_replays h1 hp hq hj hc
      exact ⟨h2.signals, h2.panel⟩
    · rw [Version.trim, if_neg hj]
      have h2 := set_lacking h1 hj hc
      exact ⟨congrArg Outcome.signals h2, congrArg Outcome.panel h2⟩
  | setAll entries =>
    obtain ⟨h2, h3, -⟩ := setAll_replays h1 hp hq (List.all_eq_true.1 hc)
    exact ⟨h2, h3⟩
  | listen name =>
    exact ⟨rfl, ⟨h1.sliders, h1.current, h1.revision, h1.word, rfl⟩⟩

/-- The results of calls on the panel of a version against those of what is left of the calls. -/
structure Answers (v : Version) (p q : Panel) : Prop where
  set : ∀ k x, x.isFinite →
    (p.set k x).result = if v.isActive k then (q.set k x).result else .ok .inactive
  configure : ∀ k slider, (p.configure k slider).result
    = if v.isActive k then (q.configure k slider).result else .error (.unregistered k)
  setAll : ∀ entries, (∀ e ∈ entries, e.2.isFinite) →
    ∃ reply : Control → Update,
      (p.setAll entries).result
          = .ok (entries.map fun e => if v.isActive e.1 then reply e.1 else .inactive)
        ∧ (q.setAll (entries.filter fun e => v.isActive e.1)).result
          = .ok ((entries.filter fun e => v.isActive e.1).map fun e => reply e.1)

theorem Restricts.answers (h1 : p.Restricts v q) (hp : p.Valid) (hq : q.Valid) : p.Answers v q where
  set k x hx := by
    split
    · next hk => exact (set_replays h1 hp hq hk hx).result
    · next hk => rw [set_lacking h1 hk hx]
  configure k slider := by
    split
    · next hk => exact (configure_replays h1 hk slider).result
    · next hk => rw [configure_lacking h1 hk slider]; rfl
  setAll entries h2 := (setAll_replays h1 hp hq h2).2.2

end Panel

/-! ## edits -/

/-- Every call of an edit with finite values: those on its panel, and those that look at it. -/
def Adjustment.Call.isEdit : Adjustment.Call → Bool
  | onPanel c => c.isEdit
  | _ => true

/-- What is left of a call without the controls that the version lacks. -/
def Version.trimEdit (v : Version) : Adjustment.Call → Option Adjustment.Call
  | .onPanel c => (v.trim c).map .onPanel
  | c => some c

/-- The settings leave the controls alone that the version lacks. -/
def Version.Allows (v : Version) (s : Settings) : Prop :=
  ∀ k, ¬ v.isActive k → s.values.get k = 0

namespace Adjustment

variable {fns : Library Float32} {v : Version} {a b : Adjustment}

/-- The edit `a` of the version `v` is in the state of `b`, and its pipeline is one of that
version. -/
structure Restricts (fns : Library Float32) (v : Version) (a b : Adjustment) : Prop where
  valid : a.panel.Valid
  valid' : b.panel.Valid
  panel : a.panel.Restricts v b.panel
  kept : a.kept = b.kept
  builds : a.builds = b.builds
  allowed : ∀ revision built, a.kept = some (revision, built) →
    ∃ s, v.Allows s ∧ built.pipeline = .ofSettings fns s

theorem Restricts.allows (h1 : Restricts fns v a b) : v.Allows a.panel.current := fun k hk =>
  h1.valid.admits.absent k (by rw [h1.panel.sliders, if_neg hk])

theorem Restricts.pipeline (h1 : Restricts fns v a b) :
    (a.pipeline fns).1 = (b.pipeline fns).1
      ∧ Restricts fns v (a.pipeline fns).2 (b.pipeline fns).2
      ∧ ∃ s, v.Allows s ∧ (a.pipeline fns).1.pipeline = .ofSettings fns s := by
  have hfresh : b.fresh? = a.fresh? := by
    rw [fresh?, fresh?, h1.kept, h1.panel.revision]
  rcases pipeline_cases fns a with ⟨built, hk, -, h2⟩ | ⟨hk, hstale, h2⟩
  · have h3 : b.pipeline fns = (built, b) := by
      rcases pipeline_cases fns b with ⟨built', hk', -, h3⟩ | ⟨hk', -, -⟩
      · rw [← h1.kept, hk, h1.panel.revision] at hk'
        rw [h3, (Prod.mk.inj (Option.some.inj hk')).2]
      · rw [← h1.kept, ← h1.panel.revision] at hk'
        exact absurd hk (hk' built)
    rw [h2, h3]
    exact ⟨rfl, h1, h1.allowed _ _ hk⟩
  · rcases pipeline_cases fns b with ⟨built', hk', -, -⟩ | ⟨-, -, h3⟩
    · rw [← h1.kept, ← h1.panel.revision] at hk'
      exact absurd hk' (hk built')
    · rw [h2, h3, ← h1.builds, ← h1.panel.current, ← h1.panel.revision]
      refine ⟨rfl, ⟨h1.valid, h1.valid', h1.panel, rfl, rfl, ?_⟩, _, h1.allows, rfl⟩
      intro revision built h
      obtain ⟨rfl, rfl⟩ := Prod.mk.inj (Option.some.inj h)
      exact ⟨_, h1.allows, rfl⟩

theorem Restricts.act (h1 : Restricts fns v a b) {c : Call} (hc : c.isEdit) :
    match v.trimEdit c with
    | some d => Restricts fns v (a.act fns c) (b.act fns d)
    | none => Restricts fns v (a.act fns c) b := by
  cases c with
  | onPanel c =>
    have h2 := Panel.Call.replays h1.panel h1.valid h1.valid' hc
    have h3 := (c.lawful h1.valid).valid
    rw [Version.trimEdit]
    cases hd : v.trim c with
    | some d =>
      rw [hd] at h2
      exact ⟨h3, (d.lawful h1.valid').valid, h2.2, h1.kept, h1.builds, h1.allowed⟩
    | none =>
      rw [hd] at h2
      refine ⟨h3, h1.valid', ?_, h1.kept, h1.builds, h1.allowed⟩
      show (c.outcome a.panel).panel.Restricts v b.panel
      rw [h2.2]
      exact h1.panel
  | pipeline => exact h1.pipeline.2.1
  | render host back s => exact h1.pipeline.2.1
  | renderTiled host back s edge => exact h1.pipeline.2.1

theorem Restricts.after (h1 : Restricts fns v a b) (calls : List Call)
    (hcalls : ∀ c ∈ calls, c.isEdit) :
    Restricts fns v (a.after fns calls) (b.after fns (calls.filterMap v.trimEdit)) := by
  induction calls generalizing a b with
  | nil => exact h1
  | cons c calls ih =>
    have h2 := h1.act (hcalls c List.mem_cons_self)
    have hrest : ∀ c ∈ calls, c.isEdit := fun c h => hcalls c (List.mem_cons_of_mem _ h)
    rw [List.filterMap_cons]
    cases hd : v.trimEdit c with
    | some d =>
      rw [hd] at h2
      exact ih h2 hrest
    | none =>
      rw [hd] at h2
      exact ih h2 hrest

theorem restricts_create (fns : Library Float32) (v : Version) :
    Restricts fns v (create v) (create .v3) where
  valid := (@current_create fns v).valid
  valid' := (@current_create fns .v3).valid
  panel := by
    refine ⟨fun k => ?_, ?_, ?_, ?_, ?_⟩
    · cases v <;> cases k <;> rfl
    all_goals cases v <;> rfl
  kept := rfl
  builds := rfl
  allowed _ _ h := nomatch h

end Adjustment

/-! ## what an old version never does -/

/-- The effect does not scale the luminosity, nor does it follow a luminosity setting. -/
def Effect.LeavesLuminosity : Effect Float32 → Prop
  | saturate _ => True
  | scale .. => False
  | contrast _ luminosity => luminosity = 0.0

namespace Pipeline

variable {s : Settings} {fns : Library Float32}

theorem vibrance_of_zero (h1 : s.values.get .vibrance = 0) :
    (ofSettings fns s).vibrance = none := by
  rw [ofSettings]
  simp only [Settings.value_of_zero h1]
  rfl

theorem hue_of_zero (h1 : s.values.get .hue = 0) : (ofSettings fns s).hue = none := by
  have h2 : (HueRotation.ofDegrees (s.value .hue : Float32)).isIdentity := by
    rw [Settings.value_of_zero h1]
    decide +kernel
  rw [ofSettings]
  simp only [h2]
  rfl

theorem effects_of_zero (h1 : s.values.get .luminosity = 0) :
    ∀ e ∈ effects (α := Float32) s, e.LeavesLuminosity := by
  have h2 : ((0.0 : Float32) != 0.0) = false := by
    decide +kernel
  intro e he
  rw [effects, Settings.value_of_zero h1, h2] at he
  simp at he
  rcases he with ⟨-, rfl⟩ | ⟨-, rfl⟩
  · trivial
  · rfl

end Pipeline

/-- **An edit of a version replays on the latest one.** After any calls with finite values, an edit
of the version `v` is in the same state as the edit of the latest version that got what is left of
these calls: the settings, the revision, what readers find, the pipeline and every render are the
same. The next call tells the listener and the readers the same; its results are the same too,
except that a value for a control that `v` lacks is inactive, and its slider is not registered. So
the first version never rotates the hue or applies vibrance, and the second one never applies
vibrance or luminosity. -/
theorem replays_on_latest (fns : Library Float32) (v : Version) (calls : List Adjustment.Call)
    (h : ∀ c ∈ calls, c.isEdit) :
    let a := (Adjustment.create v).after fns calls
    let b := (Adjustment.create .latest).after fns (calls.filterMap v.trimEdit)
    a.panel.current = b.panel.current ∧ a.panel.revision = b.panel.revision
      ∧ a.panel.readerSettings = b.panel.readerSettings
      ∧ (a.pipeline fns).1 = (b.pipeline fns).1
      ∧ (∀ host back s, (a.render fns host back s).1 = (b.render fns host back s).1)
      ∧ (∀ host back s edge,
          (a.renderTiled fns host back s edge).1 = (b.renderTiled fns host back s edge).1)
      ∧ (∀ c : Panel.Call, c.isEdit → (c.outcome a.panel).signals
          = ((v.trim c).map fun d => (d.outcome b.panel).signals).getD [])
      ∧ a.panel.Answers v b.panel
      ∧ (v = .v1 → (a.pipeline fns).1.pipeline.hue = none
          ∧ (a.pipeline fns).1.pipeline.vibrance = none)
      ∧ (v = .v2 → (a.pipeline fns).1.pipeline.vibrance = none
          ∧ ∃ es, (a.pipeline fns).1.pipeline.matrix = Effect.compose fns .identity es
            ∧ es = Pipeline.effects (a.pipeline fns).1.pipeline.settings
            ∧ ∀ e ∈ es, e.LeavesLuminosity) := by
  intro a b
  have hab : a.Restricts fns v b := (Adjustment.restricts_create fns v).after calls h
  obtain ⟨hpipeline, -, s, hs, hstages⟩ := hab.pipeline
  have hword : a.panel.readerSettings = b.panel.readerSettings := by
    rw [Panel.readerSettings, Panel.readerSettings, hab.panel.word]
  refine ⟨hab.panel.current, hab.panel.revision, hword, hpipeline, ?_, ?_, ?_,
    hab.panel.answers hab.valid hab.valid', ?_, ?_⟩
  · intro host back s
    show (a.pipeline fns).1.pipeline.render fns host back s
      = (b.pipeline fns).1.pipeline.render fns host back s
    rw [hpipeline]
  · intro host back s edge
    show (a.pipeline fns).1.pipeline.renderTiled fns host back s edge
      = (b.pipeline fns).1.pipeline.renderTiled fns host back s edge
    rw [hpipeline]
  · intro c hc
    have h1 := Panel.Call.replays hab.panel hab.valid hab.valid' hc
    cases hd : v.trim c with
    | some d =>
      rw [hd] at h1
      exact h1.1
    | none =>
      rw [hd] at h1
      exact h1.1
  · rintro rfl
    rw [hstages]
    exact ⟨Pipeline.hue_of_zero (hs .hue (by decide)),
      Pipeline.vibrance_of_zero (hs .vibrance (by decide))⟩
  · rintro rfl
    rw [hstages]
    exact ⟨Pipeline.vibrance_of_zero (hs .vibrance (by decide)), _, rfl, rfl,
      Pipeline.effects_of_zero (hs .luminosity (by decide))⟩

theorem replays_batch_of_both :
    let calls : List Adjustment.Call :=
      [.onPanel (.set .hue 30.0), .onPanel (.setAll [(.saturation, 12.5), (.vibrance, 40.0)])]
    let rest : List Adjustment.Call := [.onPanel (.setAll [(.saturation, 12.5)])]
    let a := (Adjustment.create .v1).after .binary32 calls
    let b := (Adjustment.create .v3).after .binary32 rest
    calls.filterMap Version.v1.trimEdit = rest
      ∧ (a.pipeline .binary32).1 = (b.pipeline .binary32).1
      ∧ (a.pipeline .binary32).1.pipeline.hue = none := by
  intro calls rest a b
  have hcalls : ∀ c ∈ calls, c.isEdit := by decide +kernel
  have hrest : calls.filterMap Version.v1.trimEdit = rest := rfl
  obtain ⟨-, -, -, h1, -, -, -, -, h2, -⟩ := replays_on_latest .binary32 .v1 calls hcalls
  exact ⟨hrest, h1, (h2 rfl).1⟩

end HueSaturation
