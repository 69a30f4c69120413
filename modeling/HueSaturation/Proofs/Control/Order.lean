import HueSaturation.Proofs.Control.Readers

/-!
# The order of registration

A panel lists its controls in the order of their registration. Values, sliders and listener calls
are kept and made in slot order, so two panels that list the same controls in another order cannot
be told apart by anything but that list.

* `Panel.Reordered`, `Outcome.Reordered`   the same but for the order of the keys;
* `Call.reordered`, `Reordered.after`      one call, and any calls, on two such panels;
* `reordered_register`                     the same controls, registered in two orders;
* `Call.keys_outcome`, `keys_after`        the list grows with a new control only;
* `order_is_listing_only`                  the whole of it.
-/

namespace HueSaturation

/-- The panels list the same controls, and have all else in common. -/
structure Panel.Reordered (p q : Panel) : Prop where
  keys : p.keys.Perm q.keys
  sliders : p.sliders = q.sliders
  current : p.current = q.current
  revision : p.revision = q.revision
  word : p.word = q.word
  listener : p.listener = q.listener

/-- One result and the same signals, in the same order. -/
structure Outcome.Reordered {α : Type} (o o' : Outcome α) : Prop where
  result : o.result = o'.result
  signals : o.signals = o'.signals
  panel : o.panel.Reordered o'.panel

theorem Outcome.Reordered.done {α : Type} {o o' : Outcome α} (h1 : o.Reordered o') :
    o.done.Reordered o'.done where
  result := congrArg (Except.map fun _ => ()) h1.result
  signals := h1.signals
  panel := h1.panel

namespace Panel

variable {p q : Panel}

/-! ## one call -/

section
variable (h1 : p.Reordered q)
include h1

theorem Reordered.isRegistered (k : Control) : p.isRegistered k = q.isRegistered k := by
  rw [Panel.isRegistered, Panel.isRegistered, h1.sliders]

theorem Reordered.value (k : Control) : p.value k = q.value k := by
  rw [Panel.value, Panel.value, h1.isRegistered, h1.current]

theorem Reordered.readerSettings : p.readerSettings = q.readerSettings := by
  rw [Panel.readerSettings, Panel.readerSettings, h1.word]

theorem Reordered.publish (s : Settings) : (p.publish s).Reordered (q.publish s) where
  keys := h1.keys
  sliders := h1.sliders
  current := rfl
  revision := congrArg (· + 1) h1.revision
  word := rfl
  listener := h1.listener

theorem Reordered.notify : p.notify = q.notify := by
  funext k v
  rw [Panel.notify, Panel.notify, h1.listener]

theorem Reordered.stage : p.stage = q.stage := by
  funext base k v
  rw [Panel.stage, Panel.stage, h1.sliders]

theorem Reordered.stageAll : p.stageAll = q.stageAll := by
  funext last
  rw [Panel.stageAll, Panel.stageAll, h1.stage, h1.current]

theorem Reordered.fail {α : Type} (e : PanelError) :
    (p.fail e : Outcome α).Reordered (q.fail e) :=
  ⟨rfl, rfl, h1⟩

theorem Reordered.slider (k : Control) (slider : Option Slider) :
    ({ p with sliders := p.sliders.set k slider } : Panel).Reordered
      { q with sliders := q.sliders.set k slider } :=
  { h1 with sliders := by rw [h1.sliders] }

theorem register_reordered (k : Control) : (p.register k).Reordered (q.register k) := by
  rw [register, register, h1.isRegistered]
  split
  · exact ⟨rfl, rfl, h1⟩
  · exact ⟨rfl, rfl, { h1.slider k _ with keys := h1.keys.append_right [k] }⟩

theorem configure_reordered (k : Control) (slider : Slider) :
    (p.configure k slider).Reordered (q.configure k slider) := by
  rw [configure, configure, h1.isRegistered, h1.current]
  split
  · cases slider.fault? with
    | some fault => exact h1.fail _
    | none =>
      cases slider.round? slider.default with
      | none => exact h1.fail _
      | some v =>
        simp only []
        split
        · exact ⟨rfl, rfl, { h1.slider k _ with current := rfl }⟩
        · exact ⟨rfl, rfl, (h1.slider k _).publish _⟩
  · exact h1.fail _

theorem set_reordered (k : Control) (v : Float32) : (p.set k v).Reordered (q.set k v) := by
  rw [set, set, h1.stage, h1.current]
  cases q.stage q.current k v with
  | error e => exact h1.fail e
  | ok out =>
    obtain ⟨next, update⟩ := out
    cases update with
    | changed r =>
      refine ⟨rfl, ?_, h1.publish next⟩
      show Signal.store _ :: (p.publish next).notify k r = .store _ :: (q.publish next).notify k r
      rw [(h1.publish next).notify]
      rfl
    | unchanged => exact ⟨rfl, rfl, h1⟩
    | inactive => exact ⟨rfl, rfl, h1⟩

theorem setAll_reordered (entries : List (Control × Float32)) :
    (p.setAll entries).Reordered (q.setAll entries) := by
  rw [setAll, setAll, h1.stageAll, h1.current]
  split
  · exact h1.fail _
  · cases q.stageAll (lastValues entries) with
    | error e => exact h1.fail e
    | ok out =>
      obtain ⟨next, updates⟩ := out
      simp only [(h1.publish next).notify]
      split
      · exact ⟨rfl, rfl, h1⟩
      · exact ⟨rfl, rfl, h1.publish next⟩

theorem listen_reordered (name : String) : (p.listen name).Reordered (q.listen name) :=
  ⟨rfl, rfl, { h1 with listener := rfl }⟩

theorem Call.reordered (c : Call) : (c.outcome p).Reordered (c.outcome q) := by
  cases c with
  | register k => exact (register_reordered h1 k).done
  | configure k slider => exact (configure_reordered h1 k slider).done
  | set k v => exact (set_reordered h1 k v).done
  | setAll entries => exact (setAll_reordered h1 entries).done
  | listen name => exact (listen_reordered h1 name).done

end

theorem Reordered.after (h1 : p.Reordered q) (calls : List Call) :
    (p.after calls).Reordered (q.after calls) := by
  induction calls generalizing p q with
  | nil => exact h1
  | cons c calls ih => exact ih (c.reordered h1).panel

/-! ## registrations -/

theorem get_sliders_register (p : Panel) (k j : Control) :
    (p.register k).panel.sliders.get j
      = (p.sliders.get j).or (if j = k then some k.slider else none) := by
  unfold register isRegistered
  split
  · next h =>
    by_cases hj : j = k
    · rw [hj, Option.or_of_isSome h]
    · simp [hj]
  · next h =>
    show (p.sliders.set k (some k.slider)).get j = _
    rw [PerControl.get_set]
    split
    · next hj =>
      rw [hj, Option.not_isSome_iff_eq_none.1 h]
      rfl
    · simp

theorem get_sliders_registered (p : Panel) (ks : List Control) (j : Control) :
    (p.after (ks.map .register)).sliders.get j
      = (p.sliders.get j).or (if j ∈ ks then some j.slider else none) := by
  induction ks generalizing p with
  | nil => simp [after]
  | cons k ks ih =>
    show ((p.register k).panel.after (ks.map .register)).sliders.get j = _
    rw [ih, get_sliders_register]
    by_cases hj : j = k
    · subst hj
      cases p.sliders.get j <;> simp
    · simp [hj]

theorem register_panel (p : Panel) (k : Control) :
    ∃ keys sliders, (p.register k).panel = { p with keys, sliders } := by
  unfold register
  split
  · exact ⟨_, _, rfl⟩
  · exact ⟨_, _, rfl⟩

theorem registered_panel (p : Panel) (ks : List Control) :
    ∃ keys sliders, p.after (ks.map .register) = { p with keys, sliders } := by
  induction ks generalizing p with
  | nil => exact ⟨_, _, rfl⟩
  | cons k ks ih =>
    obtain ⟨keys, sliders, h1⟩ := p.register_panel k
    obtain ⟨keys', sliders', h2⟩ := ih (p.register k).panel
    refine ⟨keys', sliders', h2.trans ?_⟩
    rw [h1]

theorem reordered_register {xs ys : List Control} (h1 : ∀ k, k ∈ xs ↔ k ∈ ys) :
    (empty.after (xs.map .register)).Reordered (empty.after (ys.map .register)) := by
  have hx := valid_empty.after (xs.map .register)
  have hy := valid_empty.after (ys.map .register)
  have hsliders : (empty.after (xs.map .register)).sliders
      = (empty.after (ys.map .register)).sliders := by
    ext k
    rw [get_sliders_registered, get_sliders_registered]
    simp only [h1]
  obtain ⟨keys, sliders, h2⟩ := empty.registered_panel xs
  obtain ⟨keys', sliders', h3⟩ := empty.registered_panel ys
  refine ⟨(List.perm_ext_iff_of_nodup hx.nodup hy.nodup).2 fun k => ?_, hsliders, ?_, ?_, ?_, ?_⟩
  · rw [hx.mem_iff, hy.mem_iff, isRegistered, isRegistered, hsliders]
  all_goals rw [h2, h3]

/-! ## the list -/

theorem Call.keys_outcome {c : Call} (h1 : ∀ k, c = .register k → p.isRegistered k) :
    (c.outcome p).panel.keys = p.keys := by
  cases c with
  | register k =>
    show (p.register k).panel.keys = _
    rw [Panel.register, if_pos (h1 k rfl)]
  | configure k slider =>
    show (p.configure k slider).panel.keys = _
    obtain ⟨sliders, h | ⟨s, h⟩⟩ := p.configure_panel k slider <;> rw [h]
    rfl
  | set k v =>
    show (p.set k v).panel.keys = _
    rcases p.set_panel k v with h | ⟨s, h⟩ <;> rw [h]
    rfl
  | setAll entries => exact p.setAll_keys entries
  | listen name => rfl

theorem keys_after (hp : p.Valid) {calls : List Call}
    (h1 : ∀ k, .register k ∈ calls → p.isRegistered k) : (p.after calls).keys = p.keys := by
  induction calls generalizing p with
  | nil => rfl
  | cons c calls ih =>
    have hkeys : (c.outcome p).panel.keys = p.keys :=
      c.keys_outcome fun k h => h1 k (h ▸ List.mem_cons_self)
    have hvalid := (c.lawful hp).valid
    refine (ih hvalid fun k h => ?_).trans hkeys
    rw [← hvalid.mem_iff, hkeys, hp.mem_iff]
    exact h1 k (List.mem_cons_of_mem _ h)

end Panel

/-- **The order of registration is a matter of the list.** Let two panels have the same controls
registered, in any two orders and any of them more than once, and let any calls follow on both.
Then the two hold the same values, sliders, revision and published word, and every next call has
the same result, sends the same signals in the same order and leaves panels that are again the same
but for the order of their keys. Calls that register none but these controls leave both lists as
they were. -/
theorem order_is_listing_only (xs ys : List Control) (h : ∀ k, k ∈ xs ↔ k ∈ ys)
    (calls : List Panel.Call) :
    let start (ks : List Control) := Panel.empty.after (ks.map .register)
    let p := (start xs).after calls
    let q := (start ys).after calls
    p.Reordered q ∧ (∀ k, p.value k = q.value k) ∧ p.readerSettings = q.readerSettings
      ∧ (∀ k, (p.register k).Reordered (q.register k))
      ∧ (∀ k slider, (p.configure k slider).Reordered (q.configure k slider))
      ∧ (∀ k v, (p.set k v).Reordered (q.set k v))
      ∧ (∀ entries, (p.setAll entries).Reordered (q.setAll entries))
      ∧ (∀ name, (p.listen name).Reordered (q.listen name))
      ∧ ((∀ k, .register k ∈ calls → k ∈ xs)
        → p.keys = (start xs).keys ∧ q.keys = (start ys).keys) := by
  intro start p q
  have hpq : p.Reordered q := (Panel.reordered_register h).after calls
  refine ⟨hpq, hpq.value, hpq.readerSettings, Panel.register_reordered hpq,
    Panel.configure_reordered hpq, Panel.set_reordered hpq, Panel.setAll_reordered hpq,
    Panel.listen_reordered hpq, ?_⟩
  intro hcalls
  have hkeys : ∀ ks : List Control, (∀ k, .register k ∈ calls → k ∈ ks) →
      ((start ks).after calls).keys = (start ks).keys := by
    intro ks hks
    refine Panel.keys_after (Panel.valid_empty.after _) fun k hk => ?_
    show ((start ks).sliders.get k).isSome
    rw [Panel.get_sliders_registered, if_pos (hks k hk)]
    simp
  exact ⟨hkeys xs hcalls, hkeys ys fun k hk => (h k).1 (hcalls k hk)⟩

theorem order_is_listing_of_two :
    let xs : List Control := [.contrast, .hue, .contrast]
    let ys : List Control := [.hue, .contrast]
    let start (ks : List Control) := Panel.empty.after (ks.map .register)
    let calls : List Panel.Call := [.listen "panel", .register .hue, .set .contrast 12.25]
    (∀ k, k ∈ xs ↔ k ∈ ys)
      ∧ ((start xs).after calls).keys = [.contrast, .hue]
      ∧ ((start ys).after calls).keys = [.hue, .contrast]
      ∧ (((start xs).after calls).setAll [(.contrast, -3.0), (.hue, 30.0)]).Reordered
        (((start ys).after calls).setAll [(.contrast, -3.0), (.hue, 30.0)]) := by
  intro xs ys start calls
  have h : ∀ k, k ∈ xs ↔ k ∈ ys := by
    intro k
    cases k <;> decide
  have hcalls : ∀ k, .register k ∈ calls → k ∈ xs := by
    intro k hk
    simp [calls] at hk
    simp [hk, xs]
  obtain ⟨-, -, -, -, -, -, h1, -, h2⟩ := order_is_listing_only xs ys h calls
  obtain ⟨h3, h4⟩ := h2 hcalls
  exact ⟨h, h3, h4, h1 _⟩

end HueSaturation
