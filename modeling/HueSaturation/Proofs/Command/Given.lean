import HueSaturation.Command.Request
import HueSaturation.Proofs.Control.Batch
import HueSaturation.Proofs.Edit.Kept

/-!
# No given value is ignored

A panel passes over values for controls that it does not have. A command line does not: each value
that it gives is either in the edit, rounded, or the reason of an error.

* `Adjustment.sliders_registered`   the panel of a version has the controls of that version;
* `Panel.setAll_of_perm`       a batch with one entry for each control can be put in any order;
* `Request.mem_given`, `pairwise_given`, `lastGiven_given`   the given values as a batch;
* `Request.missing`, `FirstNotFinite`   what can be wrong with them;
* `Request.Honors`             what an edit with these values is;
* `given_values_are_honored`   which of these it is, for every command line.
-/

namespace HueSaturation

/-! ## new panels -/

namespace Adjustment

theorem sliders_registered (v : Version) (k : Control) :
    (registered v).sliders.get k = if v.isActive k then some k.slider else none := by
  cases v <;> cases k <;> rfl

theorem current_registered (v : Version) : (registered v).current = .neutral := by
  cases v <;> rfl

theorem revision_registered (v : Version) : (registered v).revision = 0 := by
  cases v <;> rfl

theorem valid_registered (v : Version) : (registered v).Valid :=
  (@current_create .binary32 v).valid

end Adjustment

namespace Panel

variable {p : Panel} {entries others : List (Control × Float32)}

theorem setAll_ok (hp : p.Formed) (h1 : ∀ e ∈ entries, e.2.isFinite) :
    ∃ answer, (p.setAll entries).result = .ok answer := by
  obtain ⟨next, updates, -, -, h2, -⟩ := setAll_parts hp h1
  exact ⟨_, h2⟩

theorem filter_eq_of_perm (h1 : entries.Pairwise fun e f => e.1 ≠ f.1) (h2 : others.Perm entries)
    (k : Control) :
    (others.filter fun e => e.1 = k) = entries.filter fun e => e.1 = k := by
  have h3 := h2.filter fun e => e.1 = k
  have h4 := h1.filter fun e => e.1 = k
  have h5 : ∀ e ∈ entries.filter (fun e => e.1 = k), e.1 = k := by
    intro e he
    simpa using (List.mem_filter.1 he).2
  generalize (entries.filter fun e => e.1 = k) = found at h3 h4 h5 ⊢
  rcases found with _ | ⟨e, _ | ⟨f, rest⟩⟩
  · exact h3.eq_nil
  · exact List.perm_singleton.1 h3
  · -- two entries for one control
    have h6 : e.1 ≠ f.1 := List.rel_of_pairwise_cons h4 List.mem_cons_self
    exact absurd ((h5 e (by simp)).trans (h5 f (by simp)).symm) h6

/-- A batch with one entry for each control can be put in any order. -/
theorem setAll_of_perm (hp : p.Valid) (hfinite : ∀ e ∈ entries, e.2.isFinite)
    (h1 : entries.Pairwise fun e f => e.1 ≠ f.1) (h2 : others.Perm entries) :
    (p.setAll others).panel = (p.setAll entries).panel := by
  obtain ⟨answer, -, -, h3⟩ := exists_answer hp hfinite
  rw [h3 others (filter_eq_of_perm h1 h2)]

end Panel

namespace Request

variable {r : Request}

/-! ## the given values -/

theorem mem_given {e : Control × Float32} : e ∈ r.given ↔ r.values.get e.1 = some e.2 := by
  constructor
  · intro h
    obtain ⟨k, -, h2⟩ := List.mem_filterMap.1 h
    obtain ⟨v, h3, rfl⟩ := Option.map_eq_some_iff.1 h2
    exact h3
  · intro h
    exact List.mem_filterMap.2 ⟨e.1, e.1.mem_all, by rw [h, Option.map_some]⟩

theorem pairwise_given (r : Request) : r.given.Pairwise fun e f => e.1.slot < f.1.slot := by
  refine List.Pairwise.filterMap _ ?_ (by decide : Control.all.Pairwise fun j k => j.slot < k.slot)
  intro j k hjk e he f hf
  obtain ⟨v, -, rfl⟩ := Option.map_eq_some_iff.1 he
  obtain ⟨w, -, rfl⟩ := Option.map_eq_some_iff.1 hf
  exact hjk

theorem lastGiven_given (r : Request) (k : Control) : lastGiven r.given k = r.values.get k := by
  cases hk : r.values.get k with
  | none =>
    refine Panel.lastGiven_of_not_mem fun h => ?_
    obtain ⟨e, he, rfl⟩ := List.mem_map.1 h
    rw [mem_given.1 he] at hk
    cases hk
  | some v =>
    obtain ⟨w, hw⟩ := Panel.lastGiven_of_mem (mem_given.2 hk : (k, v) ∈ r.given)
    obtain ⟨e, he, rfl⟩ := Option.map_eq_some_iff.1 hw
    obtain ⟨h1, h2⟩ := List.mem_filter.1 (List.mem_of_getLast? he)
    obtain rfl : e.1 = k := by simpa using h2
    rw [mem_given.1 h1] at hk
    rw [hw, hk]

/-! ## what can be wrong -/

/-- The given controls that the version does not have, in slot order. -/
def missing (r : Request) : List Control :=
  Control.all.filter fun k => (r.values.get k).isSome && !r.version.isActive k

theorem unavailable_eq (r : Request) : r.unavailable = r.missing := by
  have h1 : r.given.map Prod.fst = Control.all.filter fun k => (r.values.get k).isSome := by
    rw [given, List.map_filterMap, ← List.filterMap_eq_filter]
    refine List.filterMap_congr fun k _ => ?_
    cases hk : r.values.get k <;> simp [Option.guard, hk]
  rw [unavailable, h1, List.filter_filter, missing]
  refine List.filter_congr fun k _ => ?_
  exact Bool.and_comm _ _

/-- `v` is given for the control `k`, and it is the first given value that is not finite. -/
structure FirstNotFinite (r : Request) (k : Control) (v : Float32) : Prop where
  given : r.values.get k = some v
  notFinite : ¬ v.isFinite
  before : ∀ j w, j.slot < k.slot → r.values.get j = some w → w.isFinite

/-- Where a value is not finite there is a first one, and the batch is refused for it. -/
theorem exists_firstNotFinite (h1 : ∃ k v, r.values.get k = some v ∧ ¬ v.isFinite) (p : Panel) :
    ∃ k v, r.FirstNotFinite k v ∧ (p.setAll r.given).result = .error (.notFinite k v) := by
  have h2 : ¬ ∀ e ∈ r.given, e.2.isFinite := by
    obtain ⟨k, v, hk, hv⟩ := h1
    exact fun h => hv (h (k, v) (mem_given.2 hk))
  obtain ⟨good, k, v, rest, h3, h4, hv⟩ := Panel.exists_first h2
  have hsorted := r.pairwise_given
  rw [h3] at hsorted
  have hgiven : (k, v) ∈ r.given := by
    rw [h3]
    exact List.mem_append_right _ List.mem_cons_self
  refine ⟨k, v, ⟨mem_given.1 hgiven, hv, ?_⟩, ?_⟩
  · intro j w hj hw
    have hmem : (j, w) ∈ r.given := mem_given.2 hw
    rw [h3] at hmem
    rcases List.mem_append.1 hmem with h | h
    · exact h4 (j, w) h
    · -- what follows has a later slot
      have hafter := (List.pairwise_append.1 hsorted).2.1
      rcases List.mem_cons.1 h with h | h
      · obtain ⟨rfl, -⟩ := Prod.mk.inj h
        exact absurd hj (lt_irrefl _)
      · exact absurd hj (List.rel_of_pairwise_cons hafter h).asymm
  · rw [h3, Panel.setAll_of_first p h4 hv]
    rfl

/-! ## the edit -/

theorem build_of_missing (h1 : r.missing ≠ []) :
    r.build = .error (.unavailable r.missing r.version) := by
  rw [build, unavailable_eq]
  exact if_neg (by simpa using h1)

theorem build_of_ok (h1 : r.missing = []) {answer : List Update}
    (h2 : ((Adjustment.registered r.version).setAll r.given).result = .ok answer) :
    r.build = .ok { Adjustment.create r.version with
      panel := ((Adjustment.registered r.version).setAll r.given).panel } := by
  rw [build, unavailable_eq, h1]
  simp only [Adjustment.onPanel, Adjustment.create, h2]
  rfl

theorem build_of_error (h1 : r.missing = []) {e : PanelError}
    (h2 : ((Adjustment.registered r.version).setAll r.given).result = .error e) :
    r.build = .error (.refused e) := by
  rw [build, unavailable_eq, h1]
  simp only [Adjustment.onPanel, Adjustment.create, h2]
  rfl

theorem isActive_of_missing (h1 : r.missing = []) {k : Control} {v : Float32}
    (hk : r.values.get k = some v) : r.version.isActive k = true := by
  have h2 := List.filter_eq_nil_iff.1 h1 k k.mem_all
  rw [hk] at h2
  simpa using h2

theorem missing_eq_nil (h1 : ∀ k v, r.values.get k = some v → r.version.isActive k) :
    r.missing = [] := by
  refine List.filter_eq_nil_iff.2 fun k _ => ?_
  cases hk : r.values.get k with
  | none => simp
  | some v => simp [h1 k v hk]

/-- The edit `a` has every given value, rounded by the slider of its control, and nothing else. -/
structure Honors (r : Request) (a : Adjustment) : Prop where
  version : a.version = r.version
  registered : ∀ k, a.panel.isRegistered k = r.version.isActive k
  given : ∀ k v, r.values.get k = some v →
    ∃ x y, k.slider.round? v = some x ∧ a.panel.value k = some y ∧ x == y
  rest : ∀ k, r.values.get k = none → a.panel.current.values.get k = 0
  /-- the values are published together, and only if there is a change -/
  published : a.panel.revision = if a.panel.current = .neutral then 0 else 1
  readers : a.panel.readerSettings = a.panel.current
  inTurn : ∀ order : List (Control × Float32), order.Perm r.given →
    a.panel.current
      = ((Adjustment.create r.version).panel.after (order.map fun e => .set e.1 e.2)).current

theorem honors_setAll (h1 : r.missing = []) (h2 : ∀ k v, r.values.get k = some v → v.isFinite) :
    r.Honors { Adjustment.create r.version with
      panel := ((Adjustment.registered r.version).setAll r.given).panel } := by
  have hp := Adjustment.valid_registered r.version
  have hfinite : ∀ e ∈ r.given, e.2.isFinite := fun e he => h2 _ _ (mem_given.1 he)
  have hkeys : r.given.Pairwise fun e f => e.1 ≠ f.1 :=
    r.pairwise_given.imp fun h heq => absurd (congrArg Control.slot heq) h.ne
  have hlawful := Panel.setAll_lawful hp r.given
  have hsliders := (Adjustment.registered r.version).setAll_sliders r.given
  have hregistered : ∀ k, ((Adjustment.registered r.version).setAll r.given).panel.isRegistered k
      = r.version.isActive k := by
    intro k
    rw [Panel.isRegistered, hsliders, Adjustment.sliders_registered]
    cases r.version.isActive k <;> rfl
  obtain ⟨next, updates, hnext, hcurrent, -⟩ := Panel.setAll_parts hp.toFormed hfinite
  refine ⟨rfl, hregistered, ?_, ?_, ?_, Panel.readerSettings_eq hlawful.valid, ?_⟩
  · intro k v hk
    have hactive := isActive_of_missing h1 hk
    have hslider : (Adjustment.registered r.version).sliders.get k = some k.slider := by
      rw [Adjustment.sliders_registered, if_pos hactive]
    obtain ⟨x, hx, hstored, hreply⟩ := Panel.reply_eq hp.toFormed hslider (h2 k v hk)
    refine ⟨x, _, hx, if_pos ((hregistered k).trans hactive), ?_⟩
    have hget : next.values.get k = Settings.slotValue x := by
      rw [(Prod.mk.inj (hnext k)).1, Panel.get_lastValues, lastGiven_given, hk]
      exact congrArg Prod.fst (hreply _)
    rw [hcurrent]
    exact (hstored (next.values.get k)).2 hget
  · intro k hk
    have hnot : k ∉ r.given.map Prod.fst := by
      intro h
      obtain ⟨e, he, rfl⟩ := List.mem_map.1 h
      rw [mem_given.1 he] at hk
      cases hk
    rw [Panel.get_setAll_of_not_mem hp hfinite hnot, Adjustment.current_registered]
    exact PerControl.get_const 0 k
  · have h3 := hlawful.revision
    rw [Adjustment.current_registered, Adjustment.revision_registered] at h3
    exact h3
  · intro order horder
    have horder' : ∀ e ∈ order, e.2.isFinite := fun e he => hfinite e (horder.mem_iff.1 he)
    rw [← Panel.setAll_of_perm hp hfinite hkeys horder]
    exact Panel.setAll_current hp horder'

end Request

/-- **No given value is ignored.** A command line makes an edit exactly if its version has all
controls that it gives values for and all these values are finite. Where controls are missing the
error names them, all of them and in slot order, whatever their values are. Otherwise it names the
first value that is not finite. The edit has every given value, rounded by the slider of its
control, has zero for all other controls, was published once at most, and is the one that the values
lead to one by one, in any order. -/
theorem given_values_are_honored (r : Request) :
    ((∃ a, r.build = .ok a) ↔
      r.missing = [] ∧ ∀ k v, r.values.get k = some v → v.isFinite)
    ∧ (r.missing ≠ [] → ∃ e, r.build = .error e ∧ e = .unavailable r.missing r.version
      ∧ e.message = joined ", " (r.missing.map Control.name) ++ " not available in \""
        ++ r.version.typeName ++ "\" (available: "
        ++ joined ", " (r.version.controls.map Control.name) ++ ")")
    ∧ (r.missing = [] → (∃ k v, r.values.get k = some v ∧ ¬ v.isFinite) →
      ∃ k v e, r.FirstNotFinite k v ∧ r.build = .error e ∧ e = .refused (.notFinite k v)
        ∧ e.message = "non-finite value " ++ plainText v ++ " for " ++ k.name)
    ∧ ∀ a, r.build = .ok a → r.Honors a := by
  have hok : r.missing = [] → (∀ k v, r.values.get k = some v → v.isFinite) →
      ∃ a, r.build = .ok a ∧ r.Honors a := by
    intro h1 h2
    have hp := Adjustment.valid_registered r.version
    obtain ⟨answer, h3⟩ := Panel.setAll_ok hp.toFormed fun e he => h2 _ _ (Request.mem_given.1 he)
    exact ⟨_, Request.build_of_ok h1 h3, Request.honors_setAll h1 h2⟩
  have hfirst : r.missing = [] → (∃ k v, r.values.get k = some v ∧ ¬ v.isFinite) →
      ∃ k v, r.FirstNotFinite k v ∧ r.build = .error (.refused (.notFinite k v)) := by
    intro h1 h2
    obtain ⟨k, v, h3, h4⟩ := Request.exists_firstNotFinite h2 (Adjustment.registered r.version)
    exact ⟨k, v, h3, Request.build_of_error h1 h4⟩
  have hiff : ∀ a, r.build = .ok a →
      r.missing = [] ∧ ∀ k v, r.values.get k = some v → v.isFinite := by
    intro a ha
    have h1 : r.missing = [] := by
      by_contra hc
      rw [Request.build_of_missing hc] at ha
      cases ha
    refine ⟨h1, fun k v hk => ?_⟩
    by_contra hv
    obtain ⟨j, w, -, h2⟩ := hfirst h1 ⟨k, v, hk, hv⟩
    rw [h2] at ha
    cases ha
  refine ⟨⟨fun ⟨a, ha⟩ => hiff a ha, fun ⟨h1, h2⟩ => ?_⟩, ?_, ?_, ?_⟩
  · obtain ⟨a, ha, -⟩ := hok h1 h2
    exact ⟨a, ha⟩
  · intro h1
    exact ⟨_, Request.build_of_missing h1, rfl, rfl⟩
  · intro h1 h2
    obtain ⟨k, v, h3, h4⟩ := hfirst h1 h2
    exact ⟨k, v, _, h3, h4, rfl, rfl⟩
  · intro a ha
    obtain ⟨h1, h2⟩ := hiff a ha
    obtain ⟨a', ha', h3⟩ := hok h1 h2
    rw [ha] at ha'
    rw [Except.ok.inj ha']
    exact h3

/-- A version without a hue and a vibrance, two values that are not finite, and a hue out of
range. -/
theorem given_values_of_three_lines :
    let old : Request := ⟨.v1, ⟨some (0.0 / 0.0), some 5.4, some 3.0, none, none⟩⟩
    let broken : Request := ⟨.v3, ⟨some 1.0, some (1.0 / 0.0), none, some (0.0 / 0.0), none⟩⟩
    let fine : Request := ⟨.v2, ⟨some 500.0, some 30.4, none, none, none⟩⟩
    old.build = .error (.unavailable [.hue, .vibrance] .v1)
      ∧ (∃ k v, broken.FirstNotFinite k v ∧ broken.build = .error (.refused (.notFinite k v)))
      ∧ ∃ a, fine.build = .ok a ∧ fine.Honors a := by
  intro old broken fine
  obtain ⟨-, hmissing, -⟩ := given_values_are_honored old
  obtain ⟨-, -, hfirst, -⟩ := given_values_are_honored broken
  obtain ⟨hiff, -, -, hhonors⟩ := given_values_are_honored fine
  have hlist : old.missing = [.hue, .vibrance] := by decide
  refine ⟨?_, ?_, ?_⟩
  · obtain ⟨e, h1, rfl, -⟩ := hmissing (by rw [hlist]; exact List.cons_ne_nil _ _)
    rw [h1, hlist]
  · obtain ⟨k, v, e, h1, h2, rfl, -⟩ :=
      hfirst (by decide) ⟨.saturation, 1.0 / 0.0, rfl, by decide +kernel⟩
    exact ⟨k, v, h1, h2⟩
  · have hfinite : ∀ k v, fine.values.get k = some v → v.isFinite := by
      intro k v h
      cases k with
      | hue => rw [← Option.some.inj h]; decide +kernel
      | saturation => rw [← Option.some.inj h]; decide +kernel
      | _ => cases h
    obtain ⟨a, ha⟩ := hiff.2 ⟨by decide, hfinite⟩
    exact ⟨a, ha, hhonors a ha⟩

end HueSaturation
