import HueSaturation.Proofs.Control.Readers
import HueSaturation.Proofs.Control.Staged

/-!
# A batch and its entries in turn

A batch first collects the last value for each control and stages those. Setting its entries one
after the other stages and publishes each of them. Both store the same settings: with a slider the
stored value comes from the last value alone, so it does not matter what was stored in between.

* `lastGiven`                  the last value that entries give for a control;
* `Panel.get_current_inTurn`   the settings after the entries in turn;
* `Panel.IsVerdict`            what a batch answers for a control that it names;
* `Panel.news`                 the values that a batch tells, in slot order;
* `Panel.exists_news`, `exists_answer`   what a batch tells and answers;
* `batch_is_entries_in_turn`   the batch as a whole.
-/

namespace HueSaturation

def lastGiven (entries : List (Control × Float32)) (k : Control) : Option Float32 :=
  (entries.filter fun e => e.1 = k).getLast?.map Prod.snd

namespace Panel

variable {p : Panel}

/-! ## last values -/

theorem lastGiven_concat (entries : List (Control × Float32)) (e : Control × Float32)
    (k : Control) :
    lastGiven (entries ++ [e]) k = if k = e.1 then some e.2 else lastGiven entries k := by
  rw [lastGiven, List.filter_append]
  by_cases hk : k = e.1
  · simp [hk]
  · have hne : ¬ e.1 = k := fun h => hk h.symm
    rw [if_neg hk, lastGiven]
    simp [hne]

theorem get_lastValues (entries : List (Control × Float32)) (k : Control) :
    (lastValues entries).get k = lastGiven entries k := by
  induction entries using List.reverseRecOn with
  | nil => simp [lastValues, lastGiven]
  | append_singleton entries e ih =>
    have hlast : lastValues (entries ++ [e]) = (lastValues entries).set e.1 (some e.2) := by
      simp [lastValues, List.foldl_append]
    rw [hlast, PerControl.get_set, ih, lastGiven_concat]

theorem lastGiven_of_mem {entries : List (Control × Float32)} {e : Control × Float32}
    (h1 : e ∈ entries) : ∃ v, lastGiven entries e.1 = some v := by
  have h2 : e ∈ entries.filter fun f => f.1 = e.1 := List.mem_filter.2 ⟨h1, by simp⟩
  exact ⟨_, by
    rw [lastGiven, List.getLast?_eq_some_getLast (List.ne_nil_of_mem h2), Option.map_some]⟩

theorem lastGiven_of_not_mem {entries : List (Control × Float32)} {k : Control}
    (h1 : k ∉ entries.map Prod.fst) : lastGiven entries k = none := by
  have h2 : (entries.filter fun e => e.1 = k) = [] := by
    rw [List.filter_eq_nil_iff]
    intro e he
    simpa using fun h : e.1 = k => h1 (h ▸ List.mem_map_of_mem he)
  rw [lastGiven, h2]
  rfl

/-- Entries that keep their order for every control end in the same values. -/
theorem lastValues_congr {xs ys : List (Control × Float32)}
    (h1 : ∀ k, (xs.filter fun e => e.1 = k) = ys.filter fun e => e.1 = k) :
    lastValues xs = lastValues ys := by
  ext k
  rw [get_lastValues, get_lastValues, lastGiven, lastGiven, h1]

/-! ## entries in turn -/

/-- The value stored for a control does not depend on the one stored before, if it has a slider. -/
theorem reply_fst_congr (hp : p.Formed) {k : Control} (old old' : Int16) {v : Float32}
    (hv : v.isFinite) (h1 : p.sliders.get k = none → old = old') :
    (p.reply k old v).1 = (p.reply k old' v).1 := by
  cases hk : p.sliders.get k with
  | none => rw [h1 hk]
  | some slider =>
    obtain ⟨r, -, -, h2⟩ := reply_eq hp hk hv
    rw [h2, h2]

/-- After the entries in turn, each control has what the last value for it leaves. -/
theorem get_current_inTurn (hp : p.Valid) {entries : List (Control × Float32)}
    (h1 : ∀ e ∈ entries, e.2.isFinite) :
    let q := p.after (entries.map fun e => .set e.1 e.2)
    q.sliders = p.sliders
      ∧ ∀ k, q.current.values.get k = (p.replyTo k (lastGiven entries k)).1 := by
  induction entries using List.reverseRecOn with
  | nil => exact ⟨rfl, fun _ => rfl⟩
  | append_singleton entries e ih =>
    intro q
    let q' := p.after (entries.map fun e => .set e.1 e.2)
    obtain ⟨hsliders, hvalues⟩ := ih fun f hf => h1 f (List.mem_append_left _ hf)
    change q'.sliders = p.sliders at hsliders
    change ∀ k, q'.current.values.get k = _ at hvalues
    have he : e.2.isFinite := h1 e (List.mem_append_right _ (List.mem_singleton_self e))
    have hq' : q'.Valid := hp.after _
    have hq : q = (q'.set e.1 e.2).panel := by
      show p.after ((entries ++ [e]).map fun e => .set e.1 e.2) = _
      rw [List.map_append]
      exact after_concat _ _ _
    rw [hq]
    refine ⟨(q'.set_sliders e.1 e.2).trans hsliders, ?_⟩
    intro k
    rw [get_current_set hq'.toFormed e.1 he, lastGiven_concat]
    by_cases hk : k = e.1
    · rw [if_pos hk, if_pos hk, hk]
      show _ = (p.reply e.1 (p.current.values.get e.1) e.2).1
      rw [reply_congr hsliders]
      refine reply_fst_congr hp.toFormed _ _ he fun hnone => ?_
      -- without a slider nothing was stored in between
      rw [hvalues]
      cases lastGiven entries e.1 with
      | none => rfl
      | some v => rw [replyTo, reply_of_none hnone]
    · rw [if_neg hk, if_neg hk]
      exact hvalues k

/-! ## answers and news -/

/-- What becomes of a control that the entries name: the last value for it is rounded by the slider
and compared with the value stored before. -/
def IsVerdict (p : Panel) (entries : List (Control × Float32)) (k : Control) (u : Update) : Prop :=
  match p.sliders.get k with
  | none => u = .inactive
  | some slider => ∃ v r, lastGiven entries k = some v ∧ slider.round? v = some r
    ∧ u = if r == (p.current.value k : Float32) then .unchanged else .changed r

theorem isVerdict_reply (hp : p.Formed) {entries : List (Control × Float32)} {k : Control}
    {v : Float32} (hv : v.isFinite) (h1 : lastGiven entries k = some v) :
    p.IsVerdict entries k (p.reply k (p.current.values.get k) v).2 := by
  unfold IsVerdict
  cases hk : p.sliders.get k with
  | none => rw [reply_of_none hk]
  | some slider =>
    obtain ⟨r, h2, -, h3⟩ := reply_eq hp hk hv
    rw [h3]
    exact ⟨v, r, h1, h2, rfl⟩

/-- The changed values among some updates, in slot order. -/
def news (updates : PerControl (Option Update)) : List (Control × Float32) :=
  Control.all.filterMap fun k =>
    match updates.get k with
    | some (.changed r) => some (k, r)
    | _ => none

theorem flatMap_calls (p : Panel) (updates : PerControl (Option Update)) :
    Control.all.flatMap (p.calls updates) = (news updates).flatMap fun e => p.notify e.1 e.2 := by
  unfold news
  induction Control.all with
  | nil => rfl
  | cons k ks ih =>
    rw [List.flatMap_cons, List.filterMap_cons, ih, calls]
    rcases updates.get k with _ | _ | r | _ <;> rfl

section
variable {next : Settings} {updates : PerControl (Option Update)}
  {last : PerControl (Option Float32)}
  (h1 : ∀ k v, last.get k = some v → v.isFinite)
  (h2 : ∀ k, (next.values.get k, updates.get k) = p.replyTo k (last.get k))
include h1 h2

/-- An update is news if and only if the stored value changes, and then it is the one stored now. -/
theorem changed_iff (hp : p.Formed) (k : Control) :
    (next.values.get k = p.current.values.get k ∧ ∀ r, updates.get k ≠ some (.changed r))
      ∨ next.values.get k ≠ p.current.values.get k
        ∧ ∃ r, updates.get k = some (.changed r) ∧ r == (next.value k : Float32) := by
  have hk := h2 k
  cases hlast : last.get k with
  | none =>
    rw [hlast] at hk
    obtain ⟨h3, h4⟩ := Prod.mk.inj hk
    exact .inl ⟨h3, fun r h => by rw [h4] at h; cases h⟩
  | some v =>
    rw [hlast] at hk
    obtain ⟨h3, h4⟩ := Prod.mk.inj hk
    rcases reply_cases hp k (p.current.values.get k) (h1 k v hlast) with ⟨h5, h6⟩ | ⟨r, h5, h6, h7⟩
    · exact .inl ⟨h3.trans h5, fun r h => h6 r (Option.some.inj (h4.symm.trans h))⟩
    · refine .inr ⟨fun h => h6 (h3.symm.trans h), r, by rw [h4, h5], ?_⟩
      show r == (Scalar.ofInt (next.values.get k).toInt : Float32)
      rw [h3]
      exact h7

theorem map_fst_news (hp : p.Formed) : (news updates).map Prod.fst
    = Control.all.filter fun k => next.values.get k ≠ p.current.values.get k := by
  rw [news, List.map_filterMap, ← List.filterMap_eq_filter]
  refine List.filterMap_congr fun k _ => ?_
  rcases changed_iff h1 h2 hp k with ⟨h3, h4⟩ | ⟨h3, r, h4, -⟩
  · rw [Option.guard, if_neg (by simp [h3])]
    rcases h : updates.get k with _ | _ | r | _
    · rfl
    · rfl
    · exact absurd h (h4 r)
    · rfl
  · rw [Option.guard, if_pos (by simp [h3]), h4]
    rfl

theorem beq_of_mem_news (hp : p.Formed) {e : Control × Float32} (he : e ∈ news updates) :
    e.2 == (next.value e.1 : Float32) := by
  obtain ⟨k, -, hk⟩ := List.mem_filterMap.1 he
  rcases changed_iff h1 h2 hp k with ⟨-, h4⟩ | ⟨-, r, h4, h5⟩
  · split at hk
    · next r h => exact absurd h (h4 r)
    · cases hk
  · rw [h4] at hk
    obtain rfl := Option.some.inj hk
    exact h5

end

section
variable (hp : p.Valid) {entries : List (Control × Float32)} (h1 : ∀ e ∈ entries, e.2.isFinite)
include hp h1

theorem setAll_current :
    (p.setAll entries).panel.current = (p.after (entries.map fun e => .set e.1 e.2)).current := by
  obtain ⟨next, updates, h2, h3, -⟩ := setAll_parts hp.toFormed h1
  rw [h3]
  refine congrArg Settings.mk (PerControl.ext_get fun k => ?_)
  rw [(get_current_inTurn hp h1).2, ← get_lastValues]
  exact (Prod.mk.inj (h2 k)).1

theorem get_setAll_of_not_mem {k : Control} (hk : k ∉ entries.map Prod.fst) :
    (p.setAll entries).panel.current.values.get k = p.current.values.get k := by
  obtain ⟨next, updates, h2, h3, -⟩ := setAll_parts hp.toFormed h1
  rw [h3, (Prod.mk.inj (h2 k)).1, get_lastValues, lastGiven_of_not_mem hk]

/-- What a batch tells: the controls that change, in slot order, with their values. -/
theorem exists_news : ∃ news : List (Control × Float32),
    news.map Prod.fst = Control.all.filter (fun k =>
        (p.setAll entries).panel.current.values.get k ≠ p.current.values.get k)
      ∧ (∀ e ∈ news, e.2 == ((p.setAll entries).panel.current.value e.1 : Float32))
      ∧ (p.setAll entries).signals = if (p.setAll entries).panel.current = p.current then []
        else .store (p.setAll entries).panel.word :: news.flatMap fun e => p.notify e.1 e.2 := by
  obtain ⟨next, updates, h2, h3, -, h4⟩ := setAll_parts hp.toFormed h1
  have hlast := finite_lastValues h1
  refine ⟨news updates, ?_, ?_, ?_⟩
  · rw [h3]
    exact map_fst_news hlast h2 hp.toFormed
  · rw [h3]
    intro e he
    exact beq_of_mem_news hlast h2 hp.toFormed he
  · rw [(setAll_lawful hp entries).valid.word, h3, h4, flatMap_calls]

/-- What a batch answers: a verdict for each control, whatever the order of the controls. -/
theorem exists_answer : ∃ answer : Control → Update,
    (∀ e ∈ entries, p.IsVerdict entries e.1 (answer e.1))
      ∧ (p.setAll entries).result = .ok (entries.map fun e => answer e.1)
      ∧ ∀ others : List (Control × Float32),
        (∀ k, (others.filter fun e => e.1 = k) = entries.filter fun e => e.1 = k) →
        p.setAll others
          = { p.setAll entries with result := .ok (others.map fun e => answer e.1) } := by
  have hlast := finite_lastValues h1
  obtain ⟨next, updates, h2, h3⟩ := setAll_of_last hp.toFormed hlast
  refine ⟨fun k => (updates.get k).getD .inactive, ?_, ?_, ?_⟩
  · intro e he
    obtain ⟨v, hv⟩ := lastGiven_of_mem he
    have hk := h2 e.1
    rw [get_lastValues, hv] at hk
    show p.IsVerdict entries e.1 ((updates.get e.1).getD .inactive)
    rw [(Prod.mk.inj hk).2]
    exact isVerdict_reply hp.toFormed (hlast e.1 v ((get_lastValues _ _).trans hv)) hv
  · rw [h3 entries h1 rfl]
    split <;> rfl
  · intro others hothers
    have hfinite : ∀ e ∈ others, e.2.isFinite := by
      intro e he
      have h4 : e ∈ others.filter fun f => f.1 = e.1 := List.mem_filter.2 ⟨he, by simp⟩
      rw [hothers] at h4
      exact h1 e (List.mem_of_mem_filter h4)
    rw [h3 others hfinite (lastValues_congr hothers), h3 entries h1 rfl]
    split <;> rfl

end

end Panel

/-- **A batch is its entries in turn, published once.** On any panel that calls lead to, a batch of
finite values stores what its entries store one after the other. It leaves the sliders, and the
values of the controls that it does not name. The revision grows by one if the settings change. The
listener is told of exactly the changed values, in slot order and as they are stored now. Every
entry has the answer for its control, which the last value for the control decides. And entries in
another order, the same for each control, make no difference but to the order of the answers. -/
theorem batch_is_entries_in_turn (calls : List Panel.Call) (entries : List (Control × Float32))
    (h : ∀ e ∈ entries, e.2.isFinite) :
    let p := Panel.empty.after calls
    let o := p.setAll entries
    let q := o.panel
    q.current = (p.after (entries.map fun e => .set e.1 e.2)).current
      ∧ q.keys = p.keys ∧ q.sliders = p.sliders
      ∧ (∀ k, k ∉ entries.map Prod.fst → q.current.values.get k = p.current.values.get k)
      ∧ q.revision = (if q.current = p.current then p.revision else p.revision + 1)
      ∧ (∃ news : List (Control × Float32),
        news.map Prod.fst
            = Control.all.filter (fun k => q.current.values.get k ≠ p.current.values.get k)
          ∧ (∀ e ∈ news, e.2 == (q.current.value e.1 : Float32))
          ∧ o.signals = if q.current = p.current then []
            else .store q.word :: news.flatMap fun e => p.notify e.1 e.2)
      ∧ ∃ answer : Control → Update,
        (∀ e ∈ entries, p.IsVerdict entries e.1 (answer e.1))
          ∧ o.result = .ok (entries.map fun e => answer e.1)
          ∧ ∀ others : List (Control × Float32),
            (∀ k, (others.filter fun e => e.1 = k) = entries.filter fun e => e.1 = k) →
            p.setAll others = { o with result := .ok (others.map fun e => answer e.1) } := by
  intro p o q
  have hp : p.Valid := Panel.valid_empty.after calls
  exact ⟨Panel.setAll_current hp h, p.setAll_keys entries, p.setAll_sliders entries,
    fun k => Panel.get_setAll_of_not_mem hp h, (Panel.setAll_lawful hp entries).revision,
    Panel.exists_news hp h, Panel.exists_answer hp h⟩

theorem batch_of_repeated_saturation :
    let calls : List Panel.Call :=
      [.register .saturation, .register .hue, .listen "panel", .set .saturation 20.0]
    let entries : List (Control × Float32) :=
      [(.saturation, 30.0), (.hue, 12.5), (.vibrance, 3.0), (.saturation, 20.25)]
    let others : List (Control × Float32) :=
      [(.vibrance, 3.0), (.saturation, 30.0), (.saturation, 20.25), (.hue, 12.5)]
    (∀ e ∈ entries, e.2.isFinite)
      ∧ ((Panel.empty.after calls).setAll entries).panel.current
        = ((Panel.empty.after calls).after (entries.map fun e => .set e.1 e.2)).current
      ∧ ((Panel.empty.after calls).setAll others).panel
        = ((Panel.empty.after calls).setAll entries).panel
      ∧ ((Panel.empty.after calls).setAll others).signals
        = ((Panel.empty.after calls).setAll entries).signals := by
  intro calls entries others
  have h : ∀ e ∈ entries, e.2.isFinite := by decide +kernel
  obtain ⟨h1, -, -, -, -, -, answer, -, -, h2⟩ := batch_is_entries_in_turn calls entries h
  have hsame : ∀ (a b c d : Float32) (k : Control),
      ([(.vibrance, c), (.saturation, a), (.saturation, d), (.hue, b)].filter fun e => e.1 = k)
        = [(.saturation, a), (.hue, b), (.vibrance, c), (.saturation, d)].filter
          fun e => e.1 = k := by
    intro a b c d k
    cases k <;> rfl
  have h3 := h2 others (hsame 30.0 12.5 3.0 20.25)
  refine ⟨h, h1, ?_, ?_⟩ <;> rw [h3]

end HueSaturation
