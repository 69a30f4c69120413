import HueSaturation.Edit.Adjustment
import HueSaturation.Proofs.Control.Calls

/-!
# The kept pipeline

The pipeline of an adjustment is kept with the revision of the panel that it was built for. As the
revision grows with every change, a kept pipeline of the current revision is one of the current
settings, and a pipeline built before a change is not handed out after it.

* `Adjustment.Call`, `after`   calls on an adjustment, and what is left of it after some;
* `Adjustment.changes`         how many calls changed the settings;
* `Adjustment.Current`         the kept pipeline is not out of date;
* `Adjustment.Since`           what became of a pipeline that was handed out;
* `pipeline_follows_settings`  the pipeline that is handed out, and when it is the one before.
-/

namespace HueSaturation

inductive Adjustment.Call where
  | onPanel (c : Panel.Call)
  | pipeline
  | render (host : Host (Except RasterError)) (back : RgbImage) (s : Blend)
  | renderTiled (host : Host (Except RasterError)) (back : RgbImage) (s : Blend) (edge : UInt32)

namespace Adjustment

section
variable (fns : Library Float32)

def act (a : Adjustment) : Call → Adjustment
  | .onPanel c => (a.onPanel fun p => c.outcome p).2.2
  | .pipeline => (a.pipeline fns).2
  | .render host back s => (a.render fns host back s).2
  | .renderTiled host back s edge => (a.renderTiled fns host back s edge).2

def after (a : Adjustment) (calls : List Call) : Adjustment :=
  calls.foldl (act fns) a

def change (a : Adjustment) (c : Call) : Nat :=
  if (a.act fns c).panel.current = a.panel.current then 0 else 1

/-- How many of the calls change the settings. -/
def changes (a : Adjustment) : List Call → Nat
  | [] => 0
  | c :: calls => a.change fns c + changes (a.act fns c) calls

end

variable {fns : Library Float32} {a : Adjustment} {n : Nat}

theorem changes_append (a : Adjustment) (xs ys : List Call) :
    a.changes fns (xs ++ ys) = a.changes fns xs + (a.after fns xs).changes fns ys := by
  induction xs generalizing a with
  | nil => exact (Nat.zero_add _).symm
  | cons c xs ih =>
    rw [List.cons_append, changes, ih, changes, Nat.add_assoc]
    rfl

theorem act_cases (fns : Library Float32) (a : Adjustment) (c : Call) :
    (∃ d : Panel.Call, a.act fns c = { a with panel := (d.outcome a.panel).panel })
      ∨ a.act fns c = (a.pipeline fns).2 := by
  cases c with
  | onPanel d => exact .inl ⟨d, rfl⟩
  | pipeline => exact .inr rfl
  | render host back s => exact .inr rfl
  | renderTiled host back s edge => exact .inr rfl

theorem pipeline_cases (fns : Library Float32) (a : Adjustment) :
    (∃ built, a.kept = some (a.panel.revision, built) ∧ a.isStale = false
        ∧ a.pipeline fns = (built, a))
      ∨ ((∀ built, a.kept ≠ some (a.panel.revision, built)) ∧ a.isStale = true
        ∧ a.pipeline fns = (⟨a.builds, .ofSettings fns a.panel.current⟩,
          { a with kept := some (a.panel.revision, ⟨a.builds, .ofSettings fns a.panel.current⟩)
                   builds := a.builds + 1 })) := by
  cases hf : a.fresh? with
  | some built =>
    left
    refine ⟨built, ?_, by rw [isStale, hf]; rfl, by rw [pipeline, hf]⟩
    unfold fresh? at hf
    split at hf
    · next revision other hk =>
      split at hf
      · next h => rw [hk, h, Option.some_inj.1 hf]
      · cases hf
    · cases hf
  | none =>
    right
    refine ⟨?_, by rw [isStale, hf]; rfl, by rw [pipeline, hf]⟩
    intro built hk
    rw [fresh?, hk] at hf
    simp at hf

/-- After `n` changes: the kept pipeline belongs to the current settings if it has the current
revision, and it was built before now. -/
structure Current (fns : Library Float32) (n : Nat) (a : Adjustment) : Prop where
  valid : a.panel.Valid
  revision : a.panel.revision.toNat = n
  kept : ∀ revision built, a.kept = some (revision, built) →
    revision.toNat ≤ n ∧ built.number < a.builds
      ∧ (revision = a.panel.revision → built.pipeline = .ofSettings fns a.panel.current)

theorem toNat_succ {r : UInt64} (h1 : r.toNat = n) (h2 : n + 1 < 2 ^ 64) :
    (r + 1).toNat = n + 1 := by
  rw [UInt64.toNat_add, h1]
  exact Nat.mod_eq_of_lt h2

theorem panel_pipeline (fns : Library Float32) (a : Adjustment) :
    (a.pipeline fns).2.panel = a.panel := by
  rcases pipeline_cases fns a with ⟨built, -, -, h3⟩ | ⟨-, -, h3⟩
  · rw [h3]
  · rw [h3]

theorem current_pipeline (h1 : Current fns n a) : Current fns n (a.pipeline fns).2 := by
  rcases pipeline_cases fns a with ⟨built, -, -, h3⟩ | ⟨-, -, h3⟩
  · rw [h3]
    exact h1
  · rw [h3]
    refine ⟨h1.valid, h1.revision, ?_⟩
    intro revision built hb
    obtain ⟨rfl, rfl⟩ := Prod.mk.inj (Option.some.inj hb)
    exact ⟨h1.revision.le, Nat.lt_succ_self _, fun _ => rfl⟩

theorem current_act (h1 : Current fns n a) (c : Call) (h2 : n + a.change fns c < 2 ^ 64) :
    Current fns (n + a.change fns c) (a.act fns c) := by
  rcases act_cases fns a c with ⟨d, hd⟩ | hd
  · have hlawful := d.lawful h1.valid
    rw [change, hd] at h2 ⊢
    rcases hlawful.effect with h | h
    · rw [if_pos h.current]
      refine ⟨hlawful.valid, ?_, ?_⟩
      · rw [h.revision]
        exact h1.revision
      · rw [h.current, h.revision]
        exact h1.kept
    · rw [if_neg h.current] at h2 ⊢
      have hrev : (d.outcome a.panel).panel.revision.toNat = n + 1 := by
        rw [h.revision]
        exact toNat_succ h1.revision h2
      refine ⟨hlawful.valid, hrev, ?_⟩
      intro revision built hk
      obtain ⟨h3, h4, -⟩ := h1.kept revision built hk
      refine ⟨by omega, h4, ?_⟩
      -- a pipeline kept from before has an older revision
      rintro rfl
      change (d.outcome a.panel).panel.revision.toNat ≤ n at h3
      omega
  · rw [change, hd, panel_pipeline, if_pos rfl]
    exact current_pipeline h1

theorem current_after (h1 : Current fns n a) (calls : List Call)
    (h2 : n + a.changes fns calls < 2 ^ 64) :
    Current fns (n + a.changes fns calls) (a.after fns calls) := by
  induction calls generalizing a n with
  | nil => exact h1
  | cons c calls ih =>
    rw [changes] at h2 ⊢
    rw [← Nat.add_assoc] at h2 ⊢
    exact ih (current_act h1 c (by omega)) h2

theorem current_create (version : Version) : Current fns 0 (create version) where
  valid := by
    suffices h : ∀ (ks : List Control) (p : Panel), p.Valid →
        (ks.foldl (fun p k => (p.register k).panel) p).Valid from
      h version.controls .empty Panel.valid_empty
    intro ks
    induction ks with
    | nil => exact fun _ hp => hp
    | cons k ks ih => exact fun p hp => ih _ (Panel.register_lawful hp k).valid
  revision := by cases version <;> rfl
  kept _ _ h := nomatch h

theorem pipeline_of_current (h1 : Current fns n a) :
    (a.pipeline fns).1.pipeline = .ofSettings fns a.panel.current := by
  rcases pipeline_cases fns a with ⟨built, hk, -, h3⟩ | ⟨-, -, h3⟩
  · rw [h3]
    exact (h1.kept _ built hk).2.2 rfl
  · rw [h3]

theorem isStale_iff (h1 : Current fns n a) :
    a.isStale = false
      ↔ ∃ revision built, a.kept = some (revision, built)
        ∧ (a.pipeline fns).1.number = built.number := by
  rcases pipeline_cases fns a with ⟨built, hk, hstale, h3⟩ | ⟨hk, hstale, h3⟩
  · rw [h3, hstale]
    exact ⟨fun _ => ⟨_, built, hk, rfl⟩, fun _ => rfl⟩
  · rw [h3, hstale]
    refine ⟨fun h => (nomatch h), ?_⟩
    rintro ⟨revision, built, hb, hnumber⟩
    have h4 := (h1.kept revision built hb).2.1
    change a.builds = built.number at hnumber
    omega

/-! ## two pipelines -/

/-- What became of the pipeline `old` after `n` changes: it is still kept, or a later one is. -/
structure Since (old : Built) (revision : UInt64) (n : Nat) (a : Adjustment) : Prop where
  older : old.number < a.builds
  kept : a.kept = some (revision, old)
    ∨ 0 < n ∧ ∃ r built, a.kept = some (r, built) ∧ old.number < built.number

theorem since_pipeline (h1 : Current fns n a) :
    Since (a.pipeline fns).1 a.panel.revision 0 (a.pipeline fns).2 := by
  rcases pipeline_cases fns a with ⟨built, hk, -, h3⟩ | ⟨-, -, h3⟩
  · rw [h3]
    exact ⟨(h1.kept _ built hk).2.1, .inl hk⟩
  · rw [h3]
    exact ⟨Nat.lt_succ_self _, .inl rfl⟩

variable {old : Built} {revision : UInt64} {m : Nat}

theorem since_act (h1 : Since old revision m a) (h2 : Current fns n a) (h3 : n = revision.toNat + m)
    (c : Call) : Since old revision (m + a.change fns c) (a.act fns c) := by
  rcases act_cases fns a c with ⟨d, hd⟩ | hd
  · rw [hd]
    exact ⟨h1.older, h1.kept.imp id (fun h => ⟨by omega, h.2⟩)⟩
  · rw [change, hd, panel_pipeline, if_pos rfl]
    rcases pipeline_cases fns a with ⟨built, -, -, h4⟩ | ⟨hk, -, h4⟩
    · rw [h4]
      exact h1
    · rw [h4]
      refine ⟨Nat.lt_succ_of_lt h1.older, .inr ⟨?_, _, _, rfl, h1.older⟩⟩
      -- without a change the old pipeline would have been of the current revision
      rcases h1.kept with h | h
      · have h5 : revision ≠ a.panel.revision := fun h6 => hk old (h6 ▸ h)
        have h6 : revision.toNat ≠ a.panel.revision.toNat := fun h7 => h5 (UInt64.toNat_inj.1 h7)
        have h7 := h2.revision
        omega
      · exact h.1

theorem since_after (h1 : Since old revision m a) (h2 : Current fns n a)
    (h3 : n = revision.toNat + m) (calls : List Call) (h4 : n + a.changes fns calls < 2 ^ 64) :
    Since old revision (m + a.changes fns calls) (a.after fns calls) := by
  induction calls generalizing a n m with
  | nil => exact h1
  | cons c calls ih =>
    rw [changes] at h4 ⊢
    rw [← Nat.add_assoc] at h4 ⊢
    exact ih (since_act h1 h2 h3 c) (current_act h2 c (by omega)) (by omega) h4

theorem number_eq_iff (h1 : Since old revision m a) (h2 : Current fns n a)
    (h3 : n = revision.toNat + m) : old.number = (a.pipeline fns).1.number ↔ m = 0 := by
  have h4 := h2.revision
  rcases pipeline_cases fns a with ⟨built, hk, -, h5⟩ | ⟨hk, -, h5⟩
  · rw [h5]
    rcases h1.kept with h | ⟨h6, r, other, h7, h8⟩
    · obtain ⟨rfl, rfl⟩ := Prod.mk.inj (Option.some.inj (h.symm.trans hk))
      exact ⟨fun _ => by omega, fun _ => rfl⟩
    · obtain ⟨rfl, rfl⟩ := Prod.mk.inj (Option.some.inj (h7.symm.trans hk))
      exact ⟨fun h => by change old.number = other.number at h; omega, fun h => by omega⟩
  · rw [h5]
    have h6 := h1.older
    refine ⟨fun h => by change old.number = a.builds at h; omega, ?_⟩
    rintro rfl
    rcases h1.kept with h | h
    · have h7 : revision = a.panel.revision := UInt64.toNat_inj.1 (by omega)
      exact absurd (h7 ▸ h) (hk old)
    · exact absurd h.1 (Nat.lt_irrefl 0)

end Adjustment

/-- **The pipeline follows the settings.** As long as the settings were changed fewer than `2 ^ 64`
times, the pipeline that an adjustment hands out and renders with is the one of its current
settings; it is the kept one if and only if the adjustment is not stale; and two pipelines are the
same object if and only if no call between them changed the settings. -/
theorem pipeline_follows_settings (fns : Library Float32) (version : Version)
    (calls later : List Adjustment.Call)
    (h : (Adjustment.create version).changes fns (calls ++ .pipeline :: later) < 2 ^ 64) :
    let a := (Adjustment.create version).after fns calls
    let b := (a.pipeline fns).2.after fns later
    (a.pipeline fns).1.pipeline = .ofSettings fns a.panel.current
      ∧ ((a.pipeline fns).1.number = (b.pipeline fns).1.number
          ↔ (a.pipeline fns).2.changes fns later = 0)
      ∧ (a.isStale = false ↔ ∃ revision built, a.kept = some (revision, built)
          ∧ (a.pipeline fns).1.number = built.number)
      ∧ (∀ host back s, (a.render fns host back s).1
          = (Pipeline.ofSettings fns a.panel.current).render fns host back s)
      ∧ ∀ host back s edge, (a.renderTiled fns host back s edge).1
          = (Pipeline.ofSettings fns a.panel.current).renderTiled fns host back s edge := by
  intro a b
  have hpanel : (a.act fns .pipeline).panel = a.panel := Adjustment.panel_pipeline fns a
  have hbound : (Adjustment.create version).changes fns calls
      + (a.pipeline fns).2.changes fns later < 2 ^ 64 := by
    rw [Adjustment.changes_append, Adjustment.changes, Adjustment.change, if_pos
      (congrArg Panel.current hpanel), Nat.zero_add] at h
    exact h
  have ha : a.Current fns (0 + (Adjustment.create version).changes fns calls) :=
    Adjustment.current_after (Adjustment.current_create version) calls (by omega)
  rw [Nat.zero_add] at ha
  have hstart := Adjustment.current_pipeline ha
  have hb := Adjustment.current_after hstart later hbound
  have hsince := Adjustment.since_after (Adjustment.since_pipeline ha) hstart
    ha.revision.symm later hbound
  rw [Nat.zero_add] at hsince
  have hcurrent := Adjustment.pipeline_of_current ha
  refine ⟨hcurrent, ?_, Adjustment.isStale_iff ha, ?_, ?_⟩
  · exact Adjustment.number_eq_iff hsince hb (congrArg (· + _) ha.revision.symm)
  · intro host back s
    rw [← hcurrent]
    rfl
  · intro host back s edge
    rw [← hcurrent]
    rfl

theorem pipeline_follows_two_hues :
    let a := (Adjustment.create .v3).after .binary32 [.onPanel (.set .hue 30.0)]
    let b := (a.pipeline .binary32).2.after .binary32 [.onPanel (.set .hue (-30.0))]
    (Adjustment.create .v3).changes .binary32
        ([.onPanel (.set .hue 30.0)] ++ .pipeline :: [.onPanel (.set .hue (-30.0))]) < 2 ^ 64
      ∧ (a.pipeline .binary32).1.number ≠ (b.pipeline .binary32).1.number := by
  intro a b
  have h : (Adjustment.create .v3).changes .binary32
      ([.onPanel (.set .hue 30.0)] ++ .pipeline :: [.onPanel (.set .hue (-30.0))]) < 2 ^ 64 := by
    decide +kernel
  refine ⟨h, ?_⟩
  rw [Ne, (pipeline_follows_settings _ _ _ _ h).2.1]
  decide +kernel

end HueSaturation
