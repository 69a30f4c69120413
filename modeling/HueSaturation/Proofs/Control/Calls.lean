import HueSaturation.Proofs.Control.Values

/-!
# Calls on a panel

Whatever the calls, the controls that are registered have sliders that can round, and the stored
values are whole units of these sliders. So no call fails for want of a whole unit, and what one
call does to the outside is either nothing or one store and the calls of the listener after it.

* `Panel.Admits`, `Panel.Valid`   settings that suit the sliders; the invariant of panels;
* `Outcome.Lawful`   what is true of the outcome of every operation on a valid panel;
* `Panel.Call`, `Panel.after`   calls, and a panel after some of them;
* `panel_keeps_whole_units`   the invariant after any calls on a new panel.
-/

namespace HueSaturation

open Binary32 (val)

/-! ## what a valid panel keeps -/

/-- The settings `s` suit the sliders: whole units in range, and zero where there is no slider. -/
structure Panel.Admits (p : Panel) (s : Settings) : Prop where
  holds : ∀ k slider, p.sliders.get k = some slider → slider.Holds (s.values.get k).toInt
  absent : ∀ k, p.sliders.get k = none → s.values.get k = 0

/-- Every registered control has one slider, and all sliders can round. -/
structure Panel.Formed (p : Panel) : Prop where
  nodup : p.keys.Nodup
  mem_iff : ∀ k, k ∈ p.keys ↔ p.isRegistered k
  sound : ∀ k slider, p.sliders.get k = some slider → slider.Sound

/-- What every panel keeps. -/
structure Panel.Valid (p : Panel) : Prop extends Panel.Formed p where
  admits : p.Admits p.current
  word : p.word = p.current.pack

/-- Nothing was stored. -/
structure Outcome.Quiet {α : Type} (p : Panel) (o : Outcome α) : Prop where
  current : o.panel.current = p.current
  revision : o.panel.revision = p.revision
  word : o.panel.word = p.word
  signals : o.signals = []

/-- New settings were stored in one step, before every call of the listener. -/
structure Outcome.Published {α : Type} (p : Panel) (o : Outcome α) : Prop where
  result : o.result.isOk
  current : o.panel.current ≠ p.current
  revision : o.panel.revision = p.revision + 1
  signals : ∃ calls, o.signals = .store o.panel.word :: calls
    ∧ ∀ s ∈ calls, ∃ name k v, s = .notify name k v

/-- What is true of the outcome of every operation. -/
structure Outcome.Lawful {α : Type} (p : Panel) (o : Outcome α) : Prop where
  valid : o.panel.Valid
  rounds : ∀ k, o.result ≠ .error (.noWholeUnit k)
  effect : o.Quiet p ∨ o.Published p

theorem Outcome.Lawful.revision {α : Type} {p : Panel} {o : Outcome α} (h1 : o.Lawful p) :
    o.panel.revision = if o.panel.current = p.current then p.revision else p.revision + 1 := by
  rcases h1.effect with h | h
  · rw [if_pos h.current, h.revision]
  · rw [if_neg h.current, h.revision]

namespace Panel

variable {p : Panel}

theorem abs_le_of_admits {s : Settings} (hp : p.Valid) (h1 : p.Admits s) (k : Control) :
    |(s.values.get k).toInt| ≤ 2047 := by
  cases h2 : p.sliders.get k with
  | none => rw [h1.absent k h2]; decide
  | some slider => exact (hp.sound k slider h2).bound (h1.holds k slider h2)

theorem admits_set {s : Settings} {k : Control} {slider : Slider} {v : Float32} {n : ℤ}
    (h1 : p.Admits s) (h2 : p.sliders.get k = some slider) (h3 : slider.Holds n)
    (h4 : (Settings.slotValue v).toInt = n) : p.Admits (s.set k v) := by
  have h5 : ∀ j, (s.set k v).values.get j
      = if j = k then Settings.slotValue v else s.values.get j :=
    fun j => PerControl.get_set s.values j k _
  constructor
  · intro j other hj
    rw [h5]
    split
    · next h =>
      subst h
      obtain rfl : other = slider := Option.some_inj.1 (hj.symm.trans h2)
      rw [h4]
      exact h3
    · exact h1.holds j other hj
  · intro j hj
    rw [h5, if_neg (fun h => by rw [h, h2] at hj; cases hj)]
    exact h1.absent j hj

theorem lawful_fail {α : Type} (hp : p.Valid) {e : PanelError} (h1 : ∀ k, e ≠ .noWholeUnit k) :
    (p.fail e : Outcome α).Lawful p where
  valid := hp
  rounds k h := h1 k (Except.error.inj h)
  effect := .inl ⟨rfl, rfl, rfl, rfl⟩

theorem lawful_ok {α : Type} (hp : p.Valid) (a : α) : (⟨.ok a, p, []⟩ : Outcome α).Lawful p where
  valid := hp
  rounds _ h := nomatch h
  effect := .inl ⟨rfl, rfl, rfl, rfl⟩

theorem lawful_publish {α : Type} {q : Panel} {next : Settings} {calls : List Signal}
    (hq : q.Formed) (h1 : q.Admits next) (h2 : next ≠ p.current) (h3 : q.revision = p.revision)
    (h4 : ∀ s ∈ calls, ∃ name k v, s = Signal.notify name k v) (a : α) :
    (⟨.ok a, q.publish next, .store (q.publish next).word :: calls⟩ : Outcome α).Lawful p where
  valid := ⟨⟨hq.nodup, hq.mem_iff, hq.sound⟩, ⟨h1.holds, h1.absent⟩, rfl⟩
  rounds _ h := nomatch h
  effect := .inr ⟨rfl, h2, congrArg (· + 1) h3, calls, rfl, h4⟩

theorem exists_of_mem_notify {k : Control} {v : Float32} {s : Signal} (h1 : s ∈ p.notify k v) :
    ∃ name k v, s = .notify name k v := by
  unfold notify at h1
  split at h1
  · next name _ => exact ⟨name, k, v, List.mem_singleton.1 h1⟩
  · cases h1

/-! ## one value -/

/-- A finite value for a control is always staged, and changes the settings iff it says so. -/
theorem exists_stage (hp : p.Valid) {base : Settings} (hb : p.Admits base) (k : Control)
    {v : Float32} (hv : v.isFinite) :
    ∃ next update, p.stage base k v = .ok (next, update) ∧ p.Admits next
      ∧ ∀ r, update = .changed r → next ≠ base := by
  unfold stage
  rw [if_pos hv]
  cases hk : p.sliders.get k with
  | none => exact ⟨base, .inactive, rfl, hb, fun _ h => nomatch h⟩
  | some slider =>
    have hs := hp.sound k slider hk
    obtain ⟨r, n, h1, h2, h3, h4, -⟩ := Slider.round?_eq hs hv
    obtain ⟨h5, h6⟩ := base.finite_value k
    have h7 : (Settings.slotValue r).toInt = n := Settings.toInt_slotValue h2 h3 (hs.bound h4)
    simp only [h1]
    split
    · exact ⟨base, .unchanged, rfl, hb, fun _ h => nomatch h⟩
    · next h =>
      rw [Binary32.beq_iff h2 h5, h3, h6] at h
      refine ⟨base.set k r, .changed r, rfl, admits_set hb hk h4 h7, ?_⟩
      intro _ _ hc
      have h8 : (base.set k r).values.get k = Settings.slotValue r := PerControl.get_set_self _ _ _
      rw [hc] at h8
      exact h (by rw [h8, h7])

theorem set_lawful (hp : p.Valid) (k : Control) (v : Float32) : (p.set k v).Lawful p := by
  by_cases hv : v.isFinite
  · obtain ⟨next, update, h1, h2, h3⟩ := exists_stage hp hp.admits k hv
    unfold set
    rw [h1]
    cases update with
    | changed r =>
      exact lawful_publish hp.toFormed h2 (h3 r rfl) rfl (fun s hs => exists_of_mem_notify hs) _
    | unchanged => exact lawful_ok hp _
    | inactive => exact lawful_ok hp _
  · have h1 : p.set k v = p.fail (.notFinite k v) := by
      unfold set stage
      rw [if_neg hv]
    rw [h1]
    exact lawful_fail hp (fun _ h => nomatch h)

theorem set_panel (p : Panel) (k : Control) (v : Float32) :
    (p.set k v).panel = p ∨ ∃ s, (p.set k v).panel = p.publish s := by
  unfold set
  split
  · exact .inl rfl
  · exact .inr ⟨_, rfl⟩
  · exact .inl rfl

theorem set_sliders (p : Panel) (k : Control) (v : Float32) :
    (p.set k v).panel.sliders = p.sliders := by
  rcases p.set_panel k v with h | ⟨s, h⟩ <;> rw [h]
  rfl

/-! ## several values -/

theorem forall_lastValues {P : Float32 → Prop} {entries : List (Control × Float32)}
    (h1 : ∀ e ∈ entries, P e.2) {k : Control} {v : Float32}
    (h2 : (lastValues entries).get k = some v) : P v := by
  suffices h : ∀ j w, (lastValues entries).get j = some w → P w from h k v h2
  refine List.foldlRecOn
    (motive := fun last : PerControl (Option Float32) => ∀ j w, last.get j = some w → P w)
    entries _ ?_ ?_
  · intro j w hj
    rw [PerControl.get_const] at hj
    cases hj
  · intro last hlast e he j w hj
    rw [PerControl.get_set] at hj
    split at hj
    · exact Option.some.inj hj ▸ h1 e he
    · exact hlast j w hj

theorem finite_lastValues {entries : List (Control × Float32)} (h1 : ∀ e ∈ entries, e.2.isFinite)
    (k : Control) (v : Float32) (h2 : (lastValues entries).get k = some v) : v.isFinite :=
  forall_lastValues (P := fun v => v.isFinite) h1 h2

theorem exists_foldlM {ε σ ι : Type} {f : σ → ι → Except ε σ} {P : σ → Prop}
    (h1 : ∀ s i, P s → ∃ t, f s i = .ok t ∧ P t) (is : List ι) {s : σ} (h2 : P s) :
    ∃ t, is.foldlM f s = .ok t ∧ P t := by
  induction is generalizing s with
  | nil => exact ⟨s, rfl, h2⟩
  | cons i is ih =>
    obtain ⟨t, h3, h4⟩ := h1 s i h2
    rw [List.foldlM_cons, h3]
    exact ih h4

theorem exists_stageAll (hp : p.Valid) {last : PerControl (Option Float32)}
    (h1 : ∀ k v, last.get k = some v → v.isFinite) :
    ∃ out, p.stageAll last = .ok out ∧ p.Admits out.1 := by
  unfold stageAll
  refine exists_foldlM ?_ Control.all hp.admits
  intro out k hout
  cases hk : last.get k with
  | none => exact ⟨out, rfl, hout⟩
  | some v =>
    obtain ⟨next, update, h2, h3, -⟩ := exists_stage hp hout k (h1 k v hk)
    refine ⟨(next, out.2.set k (some update)), ?_, h3⟩
    simp only [h2]
    rfl

theorem setAll_lawful (hp : p.Valid) (entries : List (Control × Float32)) :
    (p.setAll entries).Lawful p := by
  unfold setAll
  split
  · exact lawful_fail hp (fun _ h => nomatch h)
  · next hf =>
    have hfinite : ∀ e ∈ entries, e.2.isFinite := by
      intro e he
      simpa using List.find?_eq_none.1 hf e he
    obtain ⟨out, h1, h2⟩ := exists_stageAll hp (finite_lastValues hfinite)
    rw [h1]
    simp only []
    split
    · exact lawful_ok hp _
    · next hne =>
      refine lawful_publish hp.toFormed h2 hne rfl ?_ _
      intro s hs
      obtain ⟨k, -, hk⟩ := List.mem_flatMap.1 hs
      split at hk
      · exact exists_of_mem_notify hk
      · cases hk

theorem setAll_panel (p : Panel) (entries : List (Control × Float32)) :
    (p.setAll entries).panel = p ∨ ∃ s, (p.setAll entries).panel = p.publish s := by
  unfold setAll
  split
  · exact .inl rfl
  · split
    · exact .inl rfl
    · simp only []
      split
      · exact .inl rfl
      · exact .inr ⟨_, rfl⟩

theorem setAll_keys (p : Panel) (entries : List (Control × Float32)) :
    (p.setAll entries).panel.keys = p.keys := by
  rcases p.setAll_panel entries with h | ⟨s, h⟩ <;> rw [h]
  rfl

theorem setAll_sliders (p : Panel) (entries : List (Control × Float32)) :
    (p.setAll entries).panel.sliders = p.sliders := by
  rcases p.setAll_panel entries with h | ⟨s, h⟩ <;> rw [h]
  rfl

/-! ## the other operations -/

theorem formed_slider (hp : p.Formed) {k : Control} {slider : Slider} (h1 : p.isRegistered k)
    (h2 : slider.Sound) : ({ p with sliders := p.sliders.set k (some slider) } : Panel).Formed where
  nodup := hp.nodup
  mem_iff j := by
    rw [hp.mem_iff, isRegistered, isRegistered, PerControl.get_set]
    split
    · next h =>
      rw [h]
      exact ⟨fun _ => rfl, fun _ => h1⟩
    · rfl
  sound j other hj := by
    rw [PerControl.get_set] at hj
    split at hj
    · exact Option.some_inj.1 hj ▸ h2
    · exact hp.sound j other hj

/-- With another slider for one control, settings that differ in that control only. -/
theorem admits_slider {s t : Settings} {k : Control} {slider : Slider} (h1 : p.Admits s)
    (h2 : slider.Holds (t.values.get k).toInt) (h3 : ∀ j, j ≠ k → t.values.get j = s.values.get j) :
    ({ p with sliders := p.sliders.set k (some slider) } : Panel).Admits t where
  holds j other hj := by
    rw [PerControl.get_set] at hj
    split at hj
    · next h =>
      obtain rfl := Option.some_inj.1 hj
      rw [h]
      exact h2
    · next h =>
      rw [h3 j h]
      exact h1.holds j other hj
  absent j hj := by
    rw [PerControl.get_set] at hj
    split at hj
    · cases hj
    · next h =>
      rw [h3 j h]
      exact h1.absent j hj

theorem register_lawful (hp : p.Valid) (k : Control) : (p.register k).Lawful p := by
  unfold register
  split
  · exact lawful_ok hp false
  · next hk =>
    have hnone : p.sliders.get k = none := by
      rw [isRegistered, Bool.not_eq_true, Option.isSome_eq_false_iff] at hk
      exact Option.isNone_iff_eq_none.1 hk
    have hnew : k ∉ p.keys := fun h => hk ((hp.mem_iff k).1 h)
    refine ⟨⟨⟨?_, ?_, ?_⟩, ?_, hp.word⟩, fun _ h => (nomatch h), .inl ⟨rfl, rfl, rfl, rfl⟩⟩
    · exact List.nodup_append.2 ⟨hp.nodup, List.nodup_singleton k, by
        rintro a ha b hb rfl
        exact hnew (List.mem_singleton.1 hb ▸ ha)⟩
    · intro j
      show j ∈ p.keys ++ [k] ↔ ((p.sliders.set k (some k.slider)).get j).isSome
      rw [List.mem_append, List.mem_singleton, hp.mem_iff, isRegistered, PerControl.get_set]
      split
      · next h => exact ⟨fun _ => rfl, fun _ => .inr h⟩
      · next h => exact ⟨fun h2 => h2.resolve_right h, .inl⟩
    · intro j other hj
      change (p.sliders.set k (some k.slider)).get j = some other at hj
      rw [PerControl.get_set] at hj
      split at hj
      · exact Option.some_inj.1 hj ▸ k.slider_sound
      · exact hp.sound j other hj
    · have h1 : k.slider.Holds (p.current.values.get k).toInt := by
        rw [hp.admits.absent k hnone]
        exact k.slider_holds_zero
      have h2 := admits_slider hp.admits h1 (fun _ _ => rfl)
      exact ⟨h2.holds, h2.absent⟩

theorem configure_lawful (hp : p.Valid) (k : Control) (slider : Slider) :
    (p.configure k slider).Lawful p := by
  unfold configure
  split
  · next hk =>
    cases hfault : slider.fault? with
    | some fault => exact lawful_fail hp (fun _ h => nomatch h)
    | none =>
      have hs := Slider.sound_of_fault? hfault
      obtain ⟨v, n, h1, h2, h3, h4, -⟩ := Slider.round?_eq hs hs.default
      have h5 : (Settings.slotValue v).toInt = n := Settings.toInt_slotValue h2 h3 (hs.bound h4)
      have hformed := formed_slider hp.toFormed hk hs
      have hnext : ({ p with sliders := p.sliders.set k (some slider) } : Panel).Admits
          (p.current.set k v) := by
        refine admits_slider hp.admits ?_ (fun j h => PerControl.get_set_of_ne _ _ h)
        rw [Settings.set, PerControl.get_set_self, h5]
        exact h4
      simp only [h1]
      split
      · next heq =>
        rw [heq] at hnext
        exact ⟨⟨hformed, hnext, hp.word⟩, fun _ h => (nomatch h), .inl ⟨rfl, rfl, rfl, rfl⟩⟩
      · next hne =>
        exact lawful_publish hformed hnext hne rfl (fun _ h => absurd h List.not_mem_nil) ()
  · exact lawful_fail hp (fun _ h => nomatch h)

/-- A slider leaves all but the sliders as they are, or publishes settings too. -/
theorem configure_panel (p : Panel) (k : Control) (slider : Slider) :
    ∃ sliders, (p.configure k slider).panel = { p with sliders }
      ∨ ∃ s, (p.configure k slider).panel = ({ p with sliders } : Panel).publish s := by
  unfold configure
  split
  · split
    · exact ⟨_, .inl rfl⟩
    · split
      · exact ⟨_, .inl rfl⟩
      · simp only []
        split
        · exact ⟨_, .inl rfl⟩
        · exact ⟨_, .inr ⟨_, rfl⟩⟩
  · exact ⟨_, .inl rfl⟩

theorem listen_lawful (hp : p.Valid) (name : String) : (p.listen name).Lawful p where
  valid := ⟨⟨hp.nodup, hp.mem_iff, hp.sound⟩, ⟨hp.admits.holds, hp.admits.absent⟩, hp.word⟩
  rounds _ h := nomatch h
  effect := .inl ⟨rfl, rfl, rfl, rfl⟩

end Panel

/-! ## runs -/

inductive Panel.Call where
  | register (k : Control)
  | configure (k : Control) (slider : Slider)
  | set (k : Control) (v : Float32)
  | setAll (entries : List (Control × Float32))
  | listen (name : String)

/-- An outcome without its answer. -/
def Outcome.done {α : Type} (o : Outcome α) : Outcome Unit :=
  ⟨o.result.map fun _ => (), o.panel, o.signals⟩

def Panel.Call.outcome (p : Panel) : Panel.Call → Outcome Unit
  | register k => (p.register k).done
  | configure k slider => (p.configure k slider).done
  | set k v => (p.set k v).done
  | setAll entries => (p.setAll entries).done
  | listen name => (p.listen name).done

/-- The panel after some calls, failing ones included. -/
def Panel.after (p : Panel) (calls : List Panel.Call) : Panel :=
  calls.foldl (fun p c => (c.outcome p).panel) p

theorem Outcome.Lawful.done {α : Type} {p : Panel} {o : Outcome α} (h1 : o.Lawful p) :
    o.done.Lawful p where
  valid := h1.valid
  rounds k h := by
    refine h1.rounds k ?_
    cases h2 : o.result with
    | error e =>
      rw [Outcome.done, h2] at h
      exact congrArg Except.error (Except.error.inj h)
    | ok a =>
      rw [Outcome.done, h2] at h
      cases h
  effect := h1.effect.imp (fun h => ⟨h.current, h.revision, h.word, h.signals⟩)
    (fun h => ⟨by rw [← h.result, Outcome.done, Except.isOk, Except.isOk]; cases o.result <;> rfl,
      h.current, h.revision, h.signals⟩)

theorem Panel.Call.lawful {p : Panel} (hp : p.Valid) (c : Panel.Call) : (c.outcome p).Lawful p := by
  cases c with
  | register k => exact (Panel.register_lawful hp k).done
  | configure k slider => exact (Panel.configure_lawful hp k slider).done
  | set k v => exact (Panel.set_lawful hp k v).done
  | setAll entries => exact (Panel.setAll_lawful hp entries).done
  | listen name => exact (Panel.listen_lawful hp name).done

theorem Panel.valid_empty : Panel.empty.Valid where
  nodup := List.nodup_nil
  mem_iff k := by cases k <;> decide
  sound k slider h := by rw [Panel.empty, PerControl.get_const] at h; cases h
  admits := by
    constructor
    · intro k slider h
      rw [Panel.empty, PerControl.get_const] at h
      cases h
    · intro k _
      exact PerControl.get_const 0 k
  word := rfl

theorem Panel.Valid.after {p : Panel} (hp : p.Valid) (calls : List Panel.Call) :
    (p.after calls).Valid := by
  induction calls generalizing p with
  | nil => exact hp
  | cons c calls ih => exact ih (c.lawful hp).valid

/-- **Stored values are whole units of their sliders.** After any calls on a new panel the
registered controls are listed once each and are those with a slider, the value of each is a whole
number of magnitude up to 2047 that its slider accepts, the others are stored as zero, and no call
meets a range without a whole unit to round to. -/
theorem panel_keeps_whole_units (calls : List Panel.Call) :
    let p := Panel.empty.after calls
    p.keys.Nodup
      ∧ (∀ k, k ∈ p.keys ↔ (p.sliders.get k).isSome)
      ∧ (∀ k slider, p.sliders.get k = some slider → ∃ v n, p.value k = some v ∧ v.isFinite
          ∧ val v = (n : ℤ) ∧ -2047 ≤ n ∧ n ≤ 2047 ∧ slider.accepts v)
      ∧ (∀ k, p.sliders.get k = none → p.current.values.get k = 0)
      ∧ ∀ (c : Panel.Call) k, (c.outcome p).result ≠ .error (.noWholeUnit k) := by
  intro p
  have hp : p.Valid := Panel.valid_empty.after calls
  refine ⟨hp.nodup, hp.mem_iff, ?_, hp.admits.absent, fun c => (c.lawful hp).rounds⟩
  intro k slider hk
  have hs := hp.sound k slider hk
  have hn := hp.admits.holds k slider hk
  obtain ⟨h1, h2⟩ := p.current.finite_value k
  obtain ⟨h3, h4⟩ := abs_le.1 (hs.bound hn)
  have h5 : p.value k = some (p.current.value k) := by
    rw [Panel.value, Panel.isRegistered, hk]
    rfl
  exact ⟨_, _, h5, h1, h2, h3, h4, Slider.accepts_of_holds hs h1 h2 hn⟩

end HueSaturation
