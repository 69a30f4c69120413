import HueSaturation.Proofs.Control.Staged
import HueSaturation.Proofs.Edit.Kept

/-!
# Calls that fail

A call that fails leaves the panel as it was and does nothing outside. So an edit with the failing
calls left out is the same edit.

* `Panel.Refuses`        the calls that fail, and the error of each;
* `Outcome.Atomic`       an outcome that is all or nothing;
* `Adjustment.accepted`  the calls of a run that the panel does not refuse;
* `failed_call_changes_nothing`   the calls that fail are those at fault, and they do nothing.
-/

namespace HueSaturation

/-- The panel refuses the call with this error. A batch is refused for its first value that is not
finite. -/
def Panel.Refuses (p : Panel) : Panel.Call → PanelError → Prop
  | .register _, _ => False
  | .configure k slider, e =>
    (¬ p.isRegistered k ∧ e = .unregistered k)
      ∨ p.isRegistered k ∧ ∃ fault, slider.fault? = some fault ∧ e = .badSlider k fault
  | .set k v, e => ¬ v.isFinite ∧ e = .notFinite k v
  | .setAll entries, e => ∃ good k v rest, entries = good ++ (k, v) :: rest
    ∧ (∀ x ∈ good, x.2.isFinite) ∧ ¬ v.isFinite ∧ e = .notFinite k v
  | .listen _, _ => False

/-- An outcome with an error is that of an operation that does nothing. -/
def Outcome.Atomic {α : Type} (p : Panel) (o : Outcome α) : Prop :=
  ∀ e, o.result = .error e → o = p.fail e

section
variable {α : Type} {p q : Panel} {o : Outcome α}

theorem Outcome.atomic_fail (p : Panel) (e : PanelError) : (p.fail e : Outcome α).Atomic p := by
  intro e' h
  rw [Except.error.inj h]

theorem Outcome.atomic_ok (p : Panel) (a : α) (q : Panel) (signals : List Signal) :
    (⟨.ok a, q, signals⟩ : Outcome α).Atomic p :=
  fun _ h => nomatch h

theorem Outcome.result_done_error {e : PanelError} :
    o.done.result = .error e ↔ o.result = .error e := by
  rw [Outcome.done]
  cases o.result with
  | error e' => simp [Except.map]
  | ok a => simp [Except.map]

theorem Outcome.Atomic.done (h1 : o.Atomic p) : o.done.Atomic p := by
  intro e h
  rw [h1 e (Outcome.result_done_error.1 h)]
  rfl

end

namespace Panel

variable {p : Panel}

theorem set_atomic (p : Panel) (k : Control) (v : Float32) : (p.set k v).Atomic p := by
  unfold set
  split
  · exact Outcome.atomic_fail p _
  · exact Outcome.atomic_ok p _ _ _
  · exact Outcome.atomic_ok p _ _ _

theorem setAll_atomic (p : Panel) (entries : List (Control × Float32)) :
    (p.setAll entries).Atomic p := by
  unfold setAll
  split
  · exact Outcome.atomic_fail p _
  · split
    · exact Outcome.atomic_fail p _
    · simp only []
      split
      · exact Outcome.atomic_ok p _ _ _
      · exact Outcome.atomic_ok p _ _ _

theorem configure_atomic (p : Panel) (k : Control) (slider : Slider) :
    (p.configure k slider).Atomic p := by
  unfold configure
  split
  · split
    · exact Outcome.atomic_fail p _
    · split
      · exact Outcome.atomic_fail p _
      · simp only []
        split
        · exact Outcome.atomic_ok p _ _ _
        · exact Outcome.atomic_ok p _ _ _
  · exact Outcome.atomic_fail p _

theorem register_atomic (p : Panel) (k : Control) : (p.register k).Atomic p := by
  unfold register
  split
  · exact Outcome.atomic_ok p _ _ _
  · exact Outcome.atomic_ok p _ _ _

theorem Call.atomic (p : Panel) (c : Call) : (c.outcome p).Atomic p := by
  cases c with
  | register k => exact (p.register_atomic k).done
  | configure k slider => exact (p.configure_atomic k slider).done
  | set k v => exact (p.set_atomic k v).done
  | setAll entries => exact (p.setAll_atomic entries).done
  | listen name => exact Outcome.atomic_ok p _ _ _

/-! ## the calls that fail -/

theorem configure_error_iff {k : Control} {slider : Slider} {e : PanelError} :
    (p.configure k slider).result = .error e ↔ p.Refuses (.configure k slider) e := by
  unfold configure Refuses
  by_cases hk : p.isRegistered k
  · rw [if_pos hk]
    cases hfault : slider.fault? with
    | some fault => simp [hk, hfault, fail, @eq_comm _ e]
    | none =>
      -- a slider without fault rounds its own default
      have hs := Slider.sound_of_fault? hfault
      obtain ⟨v, n, h1, -⟩ := Slider.round?_eq hs hs.default
      simp only [h1]
      split <;> simp [hk, hfault]
  · simp [hk, fail, eq_comm]

theorem set_error_iff (hp : p.Formed) {k : Control} {v : Float32} {e : PanelError} :
    (p.set k v).result = .error e ↔ p.Refuses (.set k v) e := by
  by_cases hv : v.isFinite
  · rw [set_eq hp k hv]
    rcases p.reply k (p.current.values.get k) v with ⟨new, _ | r | _⟩ <;> simp [Refuses, hv]
  · rw [set_notFinite p k hv]
    simp [Refuses, fail, hv, eq_comm]

theorem setAll_error_iff (hp : p.Formed) {entries : List (Control × Float32)} {e : PanelError} :
    (p.setAll entries).result = .error e ↔ p.Refuses (.setAll entries) e := by
  constructor
  · intro h
    have hn : ¬ ∀ x ∈ entries, x.2.isFinite := by
      rw [← setAll_isOk_iff hp, h]
      exact Bool.false_ne_true
    obtain ⟨good, k, v, rest, rfl, h1, hv⟩ := exists_first hn
    rw [setAll_of_first p h1 hv] at h
    exact ⟨good, k, v, rest, rfl, h1, hv, (Except.error.inj h).symm⟩
  · rintro ⟨good, k, v, rest, rfl, h1, hv, rfl⟩
    rw [setAll_of_first p h1 hv]
    rfl

theorem Call.error_iff (hp : p.Formed) (c : Call) {e : PanelError} :
    (c.outcome p).result = .error e ↔ p.Refuses c e := by
  cases c with
  | register k =>
    show (p.register k).done.result = _ ↔ _
    rw [Outcome.result_done_error, Panel.register]
    split <;> simp [Refuses]
  | configure k slider => exact Outcome.result_done_error.trans configure_error_iff
  | set k v => exact Outcome.result_done_error.trans (set_error_iff hp)
  | setAll entries => exact Outcome.result_done_error.trans (setAll_error_iff hp)
  | listen name =>
    show (p.listen name).done.result = _ ↔ _
    rw [Outcome.result_done_error, Panel.listen]
    simp [Refuses]

end Panel

/-! ## an edit without its failing calls -/

namespace Adjustment

def rejects (a : Adjustment) : Call → Bool
  | .onPanel c => !(c.outcome a.panel).result.isOk
  | _ => false

def accepted (fns : Library Float32) (a : Adjustment) : List Call → List Call
  | [] => []
  | c :: calls =>
    if a.rejects c then accepted fns a calls else c :: accepted fns (a.act fns c) calls

variable {fns : Library Float32} {a : Adjustment}

theorem act_of_error {c : Panel.Call} {e : PanelError}
    (h1 : (c.outcome a.panel).result = .error e) : a.act fns (.onPanel c) = a := by
  show { a with panel := (c.outcome a.panel).panel } = a
  rw [c.atomic a.panel e h1]
  rfl

theorem act_of_rejects {c : Call} (h1 : a.rejects c) : a.act fns c = a := by
  cases c with
  | onPanel c =>
    cases h2 : (c.outcome a.panel).result with
    | error e => exact act_of_error h2
    | ok u => simp [rejects, h2, Except.isOk, Except.toBool] at h1
  | pipeline => cases h1
  | render host back s => cases h1
  | renderTiled host back s edge => cases h1

theorem after_accepted (fns : Library Float32) (a : Adjustment) (calls : List Call) :
    a.after fns (a.accepted fns calls) = a.after fns calls := by
  induction calls generalizing a with
  | nil => rfl
  | cons c calls ih =>
    rw [accepted]
    split
    · next h =>
      rw [ih]
      show a.after fns calls = (a.act fns c).after fns calls
      rw [act_of_rejects h]
    · exact ih _

end Adjustment

/-- **A call that fails changes nothing.** On any panel that calls lead to, the calls that fail are
those at fault, each with the error for its fault, and a batch is taken if and only if all of its
values are finite. A call that fails leaves the panel as it was, keys, sliders, values, revision and
the word for readers, and neither stores nor tells anything. Made on the panel of an adjustment it
leaves the adjustment as it was, which is as stale as before and hands out the same pipeline next;
and a run without its failing calls leads to the same adjustment. -/
theorem failed_call_changes_nothing (calls : List Panel.Call) (c : Panel.Call) :
    let p := Panel.empty.after calls
    (∀ e, (c.outcome p).result = .error e ↔ p.Refuses c e)
      ∧ (∀ entries, (p.setAll entries).result.isOk ↔ ∀ x ∈ entries, x.2.isFinite)
      ∧ (∀ e, (c.outcome p).result = .error e →
        (c.outcome p).panel = p ∧ (c.outcome p).signals = [])
      ∧ ∀ (fns : Library Float32) (a : Adjustment),
        (∀ e, (c.outcome a.panel).result = .error e →
          let b := a.act fns (.onPanel c)
          b = a ∧ b.isStale = a.isStale ∧ (b.pipeline fns).1 = (a.pipeline fns).1)
        ∧ ∀ acts, a.after fns (a.accepted fns acts) = a.after fns acts := by
  intro p
  have hp : p.Formed := (Panel.valid_empty.after calls).toFormed
  refine ⟨fun e => c.error_iff hp, Panel.setAll_isOk_iff hp, ?_, ?_⟩
  · intro e h
    rw [c.atomic p e h]
    exact ⟨rfl, rfl⟩
  · intro fns a
    refine ⟨?_, a.after_accepted fns⟩
    intro e h b
    have hb : b = a := Adjustment.act_of_error h
    rw [hb]
    exact ⟨rfl, rfl, rfl⟩

end HueSaturation
