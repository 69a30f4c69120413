import HueSaturation.Proofs.Control.Staged

/-!
# What a listener is told

A host that is told of changes can keep a copy of the values: it starts from the values at the
time its listener is installed and overwrites one with every call. Every change that a new value
makes is told. The reset that comes with a new slider is not: the copy is right for every control
but those that a reset has changed last.

* `Signal.heard`, `told`   the copy after one call of the listener; the values told for a control;
* `Outcome.Tells`          a call tells the listener of every value that it changes, once;
* `Panel.copy`             the copy after some calls on the panel;
* `Panel.lastChange`       the last call that has changed a value;
* `copy_is_current_unless_reset`   the copy against the values;
* `reset_is_not_told`      a slider with another default, and a copy that stays behind.
-/

namespace HueSaturation

/-- The copy of a host after a signal: calls of its listener `name` overwrite it. -/
def Signal.heard (name : String) (copy : PerControl Float32) : Signal → PerControl Float32
  | notify listener k v => if listener = name then copy.set k v else copy
  | store _ => copy

def Settings.floats (s : Settings) : PerControl Float32 :=
  ⟨s.value .hue, s.value .saturation, s.value .vibrance, s.value .luminosity, s.value .contrast⟩

/-- The values that the listener `name` is told for the control `k`, first to last. -/
def told (name : String) (k : Control) (signals : List Signal) : List Float32 :=
  signals.filterMap fun
    | .notify listener j v => if listener = name ∧ j = k then some v else none
    | .store _ => none

section
variable {name : String} {k : Control}

theorem Settings.get_floats (s : Settings) (k : Control) : s.floats.get k = s.value k := by
  cases k <;> rfl

theorem told_append (xs ys : List Signal) :
    told name k (xs ++ ys) = told name k xs ++ told name k ys :=
  List.filterMap_append

theorem told_notify_cons (listener : String) (j : Control) (v : Float32) (signals : List Signal) :
    told name k (.notify listener j v :: signals)
      = if listener = name ∧ j = k then v :: told name k signals else told name k signals := by
  rw [told, List.filterMap_cons]
  split <;> simp_all [told]

theorem get_foldl_heard (copy : PerControl Float32) (signals : List Signal) :
    (signals.foldl (Signal.heard name) copy).get k
      = (told name k signals).getLastD (copy.get k) := by
  induction signals generalizing copy with
  | nil => rfl
  | cons s signals ih =>
    rw [List.foldl_cons, ih]
    cases s with
    | store word => rfl
    | notify listener j v =>
      rw [told_notify_cons, Signal.heard]
      by_cases hl : listener = name
      · by_cases hj : j = k
        · rw [if_pos hl, if_pos ⟨hl, hj⟩, hj, PerControl.get_set_self, List.getLastD_cons]
        · rw [if_pos hl, if_neg (fun h => hj h.2), PerControl.get_set_of_ne _ _ (Ne.symm hj)]
      · rw [if_neg hl, if_neg (fun h => hl h.1)]

end

/-- The listener is told of the value of `k` if and only if it is another one than before, and then
once, the value being the one that is stored now. -/
def Outcome.Tells {α : Type} (name : String) (p : Panel) (o : Outcome α) (k : Control) : Prop :=
  (o.panel.current.values.get k = p.current.values.get k ∧ told name k o.signals = [])
    ∨ o.panel.current.values.get k ≠ p.current.values.get k
      ∧ ∃ v, told name k o.signals = [v] ∧ v == (o.panel.current.value k : Float32)

namespace Panel

variable {p : Panel} {name : String}

/-! ## one call -/

theorem told_notify (h1 : p.listener = some name) (j k : Control) (v : Float32) :
    told name k (p.notify j v) = if j = k then [v] else [] := by
  rw [notify, h1]
  simp only [told_notify_cons, true_and]
  rfl

theorem tells_of_quiet {α : Type} {o : Outcome α} (h1 : o.Quiet p) (k : Control) :
    o.Tells name p k :=
  .inl ⟨by rw [h1.current], by rw [h1.signals]; rfl⟩

theorem set_tells (hp : p.Valid) (h1 : p.listener = some name) (j : Control) (v : Float32)
    (k : Control) : (p.set j v).Tells name p k := by
  by_cases hv : v.isFinite
  · have hset := set_eq hp.toFormed j hv
    have hcases := reply_cases hp.toFormed j (p.current.values.get j) hv
    generalize p.reply j (p.current.values.get j) v = x at hset hcases
    obtain ⟨new, update⟩ := x
    rw [hset]
    rcases hcases with ⟨-, h3⟩ | ⟨r, h2, h3, h4⟩
    · cases update with
      | changed r => exact absurd rfl (h3 r)
      | unchanged => exact tells_of_quiet ⟨rfl, rfl, rfl, rfl⟩ k
      | inactive => exact tells_of_quiet ⟨rfl, rfl, rfl, rfl⟩ k
    · change update = .changed r at h2
      subst h2
      have htold : told name k ((p.publish ⟨p.current.values.set j new⟩).notify j r)
          = if j = k then [r] else [] := told_notify h1 j k r
      by_cases hjk : j = k
      · subst hjk
        rw [if_pos rfl] at htold
        refine .inr ⟨?_, r, htold, ?_⟩
        · show (p.current.values.set j new).get j ≠ _
          rw [PerControl.get_set_self]
          exact h3
        · show r == Scalar.ofInt ((p.current.values.set j new).get j).toInt
          rw [PerControl.get_set_self]
          exact h4
      · rw [if_neg hjk] at htold
        exact .inl ⟨PerControl.get_set_of_ne _ _ (Ne.symm hjk), htold⟩
  · rw [set_notFinite p j hv]
    exact tells_of_quiet ⟨rfl, rfl, rfl, rfl⟩ k

/-- Of the calls for all controls the listener hears one for each. -/
theorem told_flatMap_all (f : Control → List Signal) (g : Control → List Float32) (k : Control)
    (h1 : ∀ j, told name k (f j) = if j = k then g j else []) :
    told name k (Control.all.flatMap f) = g k := by
  have h2 : told name k (Control.all.flatMap f) = Control.all.flatMap fun j => told name k (f j) :=
    List.filterMap_flatMap ..
  rw [h2, funext h1]
  cases k <;> simp [Control.all]

theorem told_flatMap_calls (h1 : p.listener = some name) (updates : PerControl (Option Update))
    (k : Control) : told name k (Control.all.flatMap (p.calls updates))
      = match updates.get k with
        | some (.changed r) => [r]
        | _ => [] := by
  refine told_flatMap_all _ (fun k => match updates.get k with
      | some (.changed r) => [r]
      | _ => []) k fun j => ?_
  unfold calls
  rcases updates.get j with _ | _ | r | _
  · rw [ite_self]
    rfl
  · rw [ite_self]
    rfl
  · exact told_notify h1 j k r
  · rw [ite_self]
    rfl

theorem setAll_tells (hp : p.Valid) (h1 : p.listener = some name)
    (entries : List (Control × Float32)) (k : Control) : (p.setAll entries).Tells name p k := by
  by_cases hfinite : ∀ e ∈ entries, e.2.isFinite
  · obtain ⟨next, updates, h2, h3⟩ := setAll_eq hp.toFormed hfinite
    rw [h3]
    split
    · exact tells_of_quiet ⟨rfl, rfl, rfl, rfl⟩ k
    have htold := told_flatMap_calls h1 updates k
    have hk := h2 k
    cases hlast : (lastValues entries).get k with
    | none =>
      rw [hlast] at hk
      obtain ⟨h4, h5⟩ := Prod.mk.inj hk
      exact .inl ⟨h4, htold.trans (by rw [h5])⟩
    | some v =>
      have hv : v.isFinite := finite_lastValues hfinite _ _ hlast
      rw [hlast] at hk
      obtain ⟨h4, h5⟩ := Prod.mk.inj hk
      rcases reply_cases hp.toFormed k (p.current.values.get k) hv with ⟨h6, h7⟩ | ⟨r, h6, h7, h8⟩
      · refine .inl ⟨h4.trans h6, htold.trans ?_⟩
        rw [h5]
        split
        · next r h => exact absurd (Option.some.inj h) (h7 r)
        · rfl
      · refine .inr ⟨fun h => h7 (h4.symm.trans h), r, htold.trans (by rw [h5, h6]), ?_⟩
        show r == Scalar.ofInt (next.values.get k).toInt
        rw [h4]
        exact h8
  · obtain ⟨e, he, hv⟩ := not_forall₂.1 hfinite
    rw [setAll]
    split
    · exact tells_of_quiet ⟨rfl, rfl, rfl, rfl⟩ k
    · next hnone => exact absurd (List.find?_eq_none.1 hnone e he) (by simp [hv])

theorem configure_silent (name : String) (p : Panel) (j : Control) (slider : Slider) (k : Control) :
    told name k (p.configure j slider).signals = []
      ∧ (k ≠ j → (p.configure j slider).panel.current.values.get k = p.current.values.get k) := by
  unfold configure
  split
  · cases slider.fault? with
    | some fault => exact ⟨rfl, fun _ => rfl⟩
    | none =>
      cases slider.round? slider.default with
      | none => exact ⟨rfl, fun _ => rfl⟩
      | some v =>
        simp only []
        split
        · exact ⟨rfl, fun _ => rfl⟩
        · exact ⟨rfl, fun h => PerControl.get_set_of_ne _ _ h⟩
  · exact ⟨rfl, fun _ => rfl⟩

/-- All calls but the resets of a control tell of it. -/
theorem Call.tells (hp : p.Valid) (h1 : p.listener = some name) {k : Control} {c : Call}
    (h2 : ∀ slider, c ≠ .configure k slider) : (c.outcome p).Tells name p k := by
  cases c with
  | register j =>
    show (p.register j).Tells name p k
    unfold Panel.register
    split
    · exact tells_of_quiet ⟨rfl, rfl, rfl, rfl⟩ k
    · exact tells_of_quiet ⟨rfl, rfl, rfl, rfl⟩ k
  | configure j slider =>
    have hj : k ≠ j := fun h => h2 slider (by rw [h])
    obtain ⟨h3, h4⟩ := configure_silent name p j slider k
    exact .inl ⟨h4 hj, h3⟩
  | set j v => exact set_tells hp h1 j v k
  | setAll entries => exact setAll_tells hp h1 entries k
  | listen other => exact tells_of_quiet ⟨rfl, rfl, rfl, rfl⟩ k

theorem Call.told_of_same (hp : p.Valid) (h1 : p.listener = some name) {k : Control} {c : Call}
    (h2 : (c.outcome p).panel.current.values.get k = p.current.values.get k) :
    told name k (c.outcome p).signals = [] := by
  by_cases h3 : ∃ slider, c = .configure k slider
  · obtain ⟨slider, rfl⟩ := h3
    exact (configure_silent name p k slider k).1
  · rcases c.tells hp h1 (k := k) fun slider h => h3 ⟨slider, h⟩ with h | h
    · exact h.2
    · exact absurd h2 h.1

theorem Call.listener_outcome {c : Call} (h1 : ∀ other, c ≠ .listen other) :
    (c.outcome p).panel.listener = p.listener := by
  cases c with
  | register j =>
    show (p.register j).panel.listener = _
    unfold Panel.register
    split <;> rfl
  | configure j slider =>
    show (p.configure j slider).panel.listener = _
    obtain ⟨sliders, h | ⟨s, h⟩⟩ := p.configure_panel j slider <;> rw [h]
    rfl
  | set j v =>
    show (p.set j v).panel.listener = _
    rcases p.set_panel j v with h | ⟨s, h⟩ <;> rw [h]
    rfl
  | setAll entries =>
    show (p.setAll entries).panel.listener = _
    rcases p.setAll_panel entries with h | ⟨s, h⟩ <;> rw [h]
    rfl
  | listen other => exact absurd rfl (h1 other)

theorem listener_after (calls : List Call) (h1 : ∀ other, .listen other ∉ calls) :
    (p.after calls).listener = p.listener := by
  induction calls generalizing p with
  | nil => rfl
  | cons c calls ih =>
    have h2 := ih (p := (c.outcome p).panel) fun other h => h1 other (List.mem_cons_of_mem _ h)
    exact h2.trans (c.listener_outcome fun other h => h1 other (h ▸ List.mem_cons_self))

/-! ## runs -/

def signalled (p : Panel) : List Call → List Signal
  | [] => []
  | c :: calls => (c.outcome p).signals ++ (c.outcome p).panel.signalled calls

/-- The copy that the listener `name` keeps during some calls, from the values before them on. -/
def copy (p : Panel) (name : String) (calls : List Call) : PerControl Float32 :=
  (p.signalled calls).foldl (Signal.heard name) p.current.floats

/-- The last of the calls that changes the value of `k`. -/
def lastChange (p : Panel) (k : Control) : List Call → Option Call
  | [] => none
  | c :: calls =>
    ((c.outcome p).panel.lastChange k calls).or
      (if (c.outcome p).panel.current.values.get k = p.current.values.get k then none else some c)

theorem mem_of_lastChange {k : Control} {c : Call} {calls : List Call}
    (h1 : p.lastChange k calls = some c) : c ∈ calls := by
  induction calls generalizing p with
  | nil => cases h1
  | cons d calls ih =>
    rw [lastChange, Option.or_eq_some_iff] at h1
    rcases h1 with h | ⟨-, h⟩
    · exact List.mem_cons_of_mem _ (ih h)
    · obtain ⟨-, h⟩ := Option.ite_none_left_eq_some.1 h
      exact Option.some.inj h ▸ List.mem_cons_self

theorem told_of_lastChange_none (hp : p.Valid) (h1 : p.listener = some name) {calls : List Call}
    (h2 : ∀ other, .listen other ∉ calls) {k : Control} (h3 : p.lastChange k calls = none) :
    told name k (p.signalled calls) = []
      ∧ (p.after calls).current.values.get k = p.current.values.get k := by
  induction calls generalizing p with
  | nil => exact ⟨rfl, rfl⟩
  | cons c calls ih =>
    rw [lastChange, Option.or_eq_none_iff, ite_eq_left_iff] at h3
    have hsame : (c.outcome p).panel.current.values.get k = p.current.values.get k :=
      Decidable.not_not.1 fun h => nomatch h3.2 h
    have hlistener : (c.outcome p).panel.listener = some name :=
      (c.listener_outcome fun other h => h2 other (h ▸ List.mem_cons_self)).trans h1
    obtain ⟨h4, h5⟩ := ih (c.lawful hp).valid hlistener
      (fun other h => h2 other (List.mem_cons_of_mem _ h)) h3.1
    refine ⟨?_, h5.trans hsame⟩
    rw [signalled, told_append, h4, List.append_nil]
    exact c.told_of_same hp h1 hsame

/-- If no reset comes last, the value that is told last is the one that is stored. -/
theorem told_of_lastChange_some (hp : p.Valid) (h1 : p.listener = some name) {calls : List Call}
    (h2 : ∀ other, .listen other ∉ calls) {k : Control} {d : Call}
    (h3 : p.lastChange k calls = some d) (h4 : ∀ slider, d ≠ .configure k slider) :
    ∃ v, (told name k (p.signalled calls)).getLast? = some v
      ∧ v == ((p.after calls).current.value k : Float32) := by
  induction calls generalizing p with
  | nil => cases h3
  | cons c calls ih =>
    have hlistener : (c.outcome p).panel.listener = some name :=
      (c.listener_outcome fun other h => h2 other (h ▸ List.mem_cons_self)).trans h1
    have hcalls : ∀ other, .listen other ∉ calls := fun other h =>
      h2 other (List.mem_cons_of_mem _ h)
    rw [signalled, told_append]
    rw [lastChange] at h3
    cases hlast : (c.outcome p).panel.lastChange k calls with
    | some e =>
      rw [hlast, Option.some_or] at h3
      obtain ⟨v, h5, h6⟩ := ih (c.lawful hp).valid hlistener hcalls (hlast.trans h3)
      exact ⟨v, by rw [List.getLast?_append, h5, Option.some_or], h6⟩
    | none =>
      -- the value of this call is the last one
      rw [hlast, Option.none_or, ite_eq_iff] at h3
      obtain ⟨h5, h6⟩ := told_of_lastChange_none (c.lawful hp).valid hlistener hcalls hlast
      rcases h3 with ⟨-, h⟩ | ⟨hne, h⟩
      · cases h
      obtain rfl := Option.some.inj h
      rcases c.tells hp h1 h4 with h | ⟨-, v, h7, h8⟩
      · exact absurd h.1 hne
      · refine ⟨v, by rw [h5, List.append_nil, h7]; rfl, ?_⟩
        show v == Scalar.ofInt (((c.outcome p).panel.after calls).current.values.get k).toInt
        rw [h6]
        exact h8

end Panel

/-- **A copy is current unless a reset came last.** From any state with a listener on, the copy that
the listener keeps holds the value of every control that was not changed last by a reset. Every call
that is not a reset tells the listener of exactly the values that it changes, each once; a reset
tells it nothing. -/
theorem copy_is_current_unless_reset (before calls : List Panel.Call) (name : String) (k : Control)
    (h1 : (Panel.empty.after before).listener = some name)
    (h2 : ∀ other, .listen other ∉ calls) :
    let p := Panel.empty.after before
    let q := p.after calls
    ((∀ slider, p.lastChange k calls ≠ some (.configure k slider)) →
        (p.copy name calls).get k == (q.current.value k : Float32))
      ∧ (∀ c : Panel.Call, (∀ slider, c ≠ .configure k slider) → (c.outcome q).Tells name q k)
      ∧ ∀ slider, told name k (q.configure k slider).signals = [] := by
  intro p q
  have hp : p.Valid := Panel.valid_empty.after before
  refine ⟨?_, ?_, fun slider => (Panel.configure_silent name q k slider k).1⟩
  · intro h3
    rw [Panel.copy, get_foldl_heard, Settings.get_floats]
    cases hlast : p.lastChange k calls with
    | none =>
      obtain ⟨h4, h5⟩ := Panel.told_of_lastChange_none hp h1 h2 hlast
      rw [h4]
      show (Scalar.ofInt (p.current.values.get k).toInt : Float32)
        == Scalar.ofInt (q.current.values.get k).toInt
      rw [h5]
      exact (Binary32.beq_iff (p.current.finite_value k).1 (p.current.finite_value k).1).2 rfl
    | some d =>
      obtain ⟨v, h4, h5⟩ := Panel.told_of_lastChange_some hp h1 h2 hlast fun slider h =>
        h3 slider (hlast.trans (congrArg some h))
      rw [List.getLastD_eq_getLast?, h4]
      exact h5
  · intro c h3
    exact c.tells (hp.after calls) ((Panel.listener_after calls h2).trans h1) h3

theorem copy_is_current_after_batch :
    let p := Panel.empty.after [.register .hue, .register .contrast, .listen "panel"]
    let calls : List Panel.Call := [.set .hue 12.25, .setAll [(.contrast, 3.0), (.contrast, -7.5)]]
    p.listener = some "panel" ∧ (∀ other, Panel.Call.listen other ∉ calls)
      ∧ (p.copy "panel" calls).get .contrast
        == ((p.after calls).current.value .contrast : Float32) := by
  intro p calls
  have h1 : p.listener = some "panel" := by decide
  have h2 : ∀ other, Panel.Call.listen other ∉ calls := by simp [calls]
  refine ⟨h1, h2, (copy_is_current_unless_reset _ calls "panel" .contrast h1 h2).1 ?_⟩
  intro slider h3
  have h4 := Panel.mem_of_lastChange h3
  simp [calls] at h4

/-- A slider with another default changes the value, and the listener hears nothing of it. -/
theorem reset_is_not_told :
    let p := Panel.empty.after [.register .saturation, .listen "panel"]
    let reset := Panel.Call.configure .saturation { min := -50.0, max := 50.0, default := 10.0 }
    p.listener = some "panel"
      ∧ (p.after [reset]).revision = p.revision + 1
      ∧ told "panel" .saturation (reset.outcome p).signals = []
      ∧ ((p.after [reset]).current.value .saturation : Float32) == 10.0
      ∧ ¬ (p.copy "panel" [reset]).get .saturation == (10.0 : Float32) := by
  decide +kernel

end HueSaturation
