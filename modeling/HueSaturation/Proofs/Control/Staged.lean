import HueSaturation.Proofs.Control.Calls

/-!
# Staged values

What becomes of a new value depends on its control alone: on the slider and on the value that is
stored for that control. A batch is staged control after control, so it comes to the same as all
of its controls on their own.

* `Panel.reply`         what becomes of one value: the value stored after it, and the update;
* `Panel.reply_eq`      the stored value comes from the slider alone;
* `Panel.reply_cases`   it changes iff the update says so, and then it is the one told;
* `Panel.stage_eq`, `stageAll_eq`   staging gives the replies;
* `Panel.set_eq`, `setAll_eq`   a call stores the replies, and tells those that change a value;
* `Panel.get_current_set`, `setAll_parts`   every value after one value or several;
* `Panel.setAll_isOk_iff`   a batch is taken if and only if all of its values are finite.
-/

namespace HueSaturation

open Binary32 (val)

theorem Control.nodup_all : Control.all.Nodup := by
  decide

namespace Panel

variable {p : Panel}

/-- What becomes of the finite value `v` for the control `k` where `old` is stored. -/
def reply (p : Panel) (k : Control) (old : Int16) (v : Float32) : Int16 × Update :=
  match p.sliders.get k with
  | none => (old, .inactive)
  | some slider =>
    match slider.round? v with
    | none => (old, .unchanged)
    | some r =>
      if r == (Scalar.ofInt old.toInt : Float32) then (old, .unchanged)
      else (Settings.slotValue r, .changed r)

/-- What becomes of the last value that a batch gives for the control `k`, if it gives one. -/
def replyTo (p : Panel) (k : Control) : Option Float32 → Int16 × Option Update
  | none => (p.current.values.get k, none)
  | some v =>
    let r := p.reply k (p.current.values.get k) v
    (r.1, some r.2)

theorem reply_of_none {k : Control} (h1 : p.sliders.get k = none) (old : Int16) (v : Float32) :
    p.reply k old v = (old, .inactive) := by
  rw [reply, h1]

theorem reply_congr {q : Panel} (h1 : q.sliders = p.sliders) : q.reply = p.reply := by
  funext k old v
  rw [reply, reply, h1]

/-- With a slider, the value stored before decides on the update only. -/
theorem reply_eq (hp : p.Formed) {k : Control} {slider : Slider}
    (hk : p.sliders.get k = some slider) {v : Float32} (hv : v.isFinite) :
    ∃ r, slider.round? v = some r
      ∧ (∀ m : Int16, r == (Scalar.ofInt m.toInt : Float32) ↔ m = Settings.slotValue r)
      ∧ ∀ old, p.reply k old v = (Settings.slotValue r,
        if r == (Scalar.ofInt old.toInt : Float32) then .unchanged else .changed r) := by
  have hs := hp.sound k slider hk
  obtain ⟨r, n, h1, h2, h3, h4, -⟩ := Slider.round?_eq hs hv
  have h5 : (Settings.slotValue r).toInt = n := Settings.toInt_slotValue h2 h3 (hs.bound h4)
  have hsame : ∀ m : Int16,
      r == (Scalar.ofInt m.toInt : Float32) ↔ m = Settings.slotValue r := by
    intro m
    obtain ⟨h6, h7⟩ : (Scalar.ofInt m.toInt : Float32).isFinite
        ∧ val (Scalar.ofInt m.toInt) = m.toInt := Settings.finite_value ⟨.const m⟩ .hue
    rw [Binary32.beq_iff h2 h6, h3, h7, Int.cast_inj, ← h5, Int16.toInt_inj, eq_comm]
  refine ⟨r, h1, hsame, ?_⟩
  intro old
  rw [reply, hk]
  simp only [h1]
  split
  · next h => rw [← (hsame old).1 h]
  · rfl

theorem reply_cases (hp : p.Formed) (k : Control) (old : Int16) {v : Float32} (hv : v.isFinite) :
    ((p.reply k old v).1 = old ∧ ∀ r, (p.reply k old v).2 ≠ .changed r)
      ∨ ∃ r, (p.reply k old v).2 = .changed r ∧ (p.reply k old v).1 ≠ old
        ∧ r == (Scalar.ofInt (p.reply k old v).1.toInt : Float32) := by
  cases hk : p.sliders.get k with
  | none =>
    rw [reply_of_none hk]
    exact .inl ⟨rfl, fun _ h => nomatch h⟩
  | some slider =>
    obtain ⟨r, -, h1, h2⟩ := reply_eq hp hk hv
    rw [h2]
    by_cases h : r == (Scalar.ofInt old.toInt : Float32)
    · rw [if_pos h]
      exact .inl ⟨((h1 old).1 h).symm, fun _ h => nomatch h⟩
    · rw [if_neg h]
      exact .inr ⟨r, rfl, fun hc => h ((h1 old).2 hc.symm), (h1 _).2 rfl⟩

theorem stage_eq (hp : p.Formed) (base : Settings) (k : Control) {v : Float32} (hv : v.isFinite) :
    p.stage base k v = .ok (⟨base.values.set k (p.reply k (base.values.get k) v).1⟩,
      (p.reply k (base.values.get k) v).2) := by
  have hsame : (⟨base.values.set k (base.values.get k)⟩ : Settings) = base := by
    rw [PerControl.set_get]
  rw [stage, if_pos hv]
  cases hk : p.sliders.get k with
  | none =>
    rw [reply_of_none hk]
    simp only [hsame]
  | some slider =>
    obtain ⟨r, n, h1, -⟩ := Slider.round?_eq (hp.sound k slider hk) hv
    rw [reply, hk]
    simp only [h1]
    by_cases h : r == (base.value k : Float32)
    · have h2 : r == (Scalar.ofInt (base.values.get k).toInt : Float32) := h
      rw [if_pos h, if_pos h2, hsame]
    · have h2 : ¬ r == (Scalar.ofInt (base.values.get k).toInt : Float32) := h
      rw [if_neg h, if_neg h2]
      rfl

/-- Controls that are staged one after the other do not meet: each keeps the slot of every other. -/
theorem foldlM_stage_eq (hp : p.Formed) {last : PerControl (Option Float32)}
    (h1 : ∀ k v, last.get k = some v → v.isFinite) (ks : List Control) (hks : ks.Nodup)
    (s : Settings × PerControl (Option Update))
    (h2 : ∀ k ∈ ks, (s.1.values.get k, s.2.get k) = (p.current.values.get k, none)) :
    ∃ t : Settings × PerControl (Option Update),
      ks.foldlM (fun (next, updates) k =>
        match last.get k with
        | none => (.ok (next, updates) : Except PanelError _)
        | some v =>
          (p.stage next k v).map fun (next, update) => (next, updates.set k (some update))) s
        = .ok t
      ∧ ∀ k, (t.1.values.get k, t.2.get k)
          = if k ∈ ks then p.replyTo k (last.get k) else (s.1.values.get k, s.2.get k) := by
  induction ks generalizing s with
  | nil => exact ⟨s, rfl, fun k => by simp⟩
  | cons j ks ih =>
    obtain ⟨hj, hks⟩ := List.nodup_cons.1 hks
    have hhead := h2 j List.mem_cons_self
    rw [List.foldlM_cons]
    cases hlast : last.get j with
    | none =>
      obtain ⟨t, h3, h4⟩ := ih hks s fun k hk => h2 k (List.mem_cons_of_mem _ hk)
      refine ⟨t, h3, fun k => ?_⟩
      rw [h4]
      by_cases hkj : k = j
      · subst hkj
        rw [if_neg hj, if_pos List.mem_cons_self, hlast, hhead]
        rfl
      · simp [hkj]
    | some v =>
      have hstage := stage_eq hp s.1 j (h1 j v hlast)
      rw [(Prod.mk.inj hhead).1] at hstage
      obtain ⟨t, h3, h4⟩ := ih hks
        (⟨s.1.values.set j (p.reply j (p.current.values.get j) v).1⟩,
          s.2.set j (some (p.reply j (p.current.values.get j) v).2)) (by
        intro k hk
        have hkj : k ≠ j := fun h => hj (h ▸ hk)
        simp only [PerControl.get_set_of_ne _ _ hkj]
        exact h2 k (List.mem_cons_of_mem _ hk))
      refine ⟨t, ?_, fun k => ?_⟩
      · simp only [hstage]
        exact h3
      · rw [h4]
        by_cases hkj : k = j
        · subst hkj
          rw [if_neg hj, if_pos List.mem_cons_self, hlast, PerControl.get_set_self,
            PerControl.get_set_self]
          rfl
        · simp [hkj, PerControl.get_set_of_ne _ _ hkj]

theorem stageAll_eq (hp : p.Formed) {last : PerControl (Option Float32)}
    (h1 : ∀ k v, last.get k = some v → v.isFinite) :
    ∃ next updates, p.stageAll last = .ok (next, updates)
      ∧ ∀ k, (next.values.get k, updates.get k) = p.replyTo k (last.get k) := by
  obtain ⟨⟨next, updates⟩, h2, h3⟩ := foldlM_stage_eq hp h1 Control.all Control.nodup_all
    (p.current, .const none) fun k _ => by rw [PerControl.get_const]
  exact ⟨next, updates, h2, fun k => by rw [h3, if_pos k.mem_all]⟩

/-! ## whole calls -/

/-- The calls of the listener for the control `k` after a batch. -/
def calls (p : Panel) (updates : PerControl (Option Update)) (k : Control) : List Signal :=
  match updates.get k with
  | some (.changed r) => p.notify k r
  | _ => []

theorem set_eq (hp : p.Formed) (k : Control) {v : Float32} (hv : v.isFinite) :
    p.set k v = match p.reply k (p.current.values.get k) v with
      | (new, .changed r) =>
        let published := p.publish ⟨p.current.values.set k new⟩
        ⟨.ok (.changed r), published, .store published.word :: published.notify k r⟩
      | (_, update) => ⟨.ok update, p, []⟩ := by
  rw [set, stage_eq hp p.current k hv]
  cases p.reply k (p.current.values.get k) v with
  | mk new update => cases update <;> rfl

theorem set_result (hp : p.Formed) (k : Control) {v : Float32} (hv : v.isFinite) :
    (p.set k v).result = .ok (p.reply k (p.current.values.get k) v).2 := by
  rw [set_eq hp k hv]
  rcases p.reply k (p.current.values.get k) v with ⟨new, _ | r | _⟩ <;> rfl

theorem get_current_set (hp : p.Formed) (k : Control) {v : Float32} (hv : v.isFinite)
    (j : Control) :
    (p.set k v).panel.current.values.get j
      = if j = k then (p.reply k (p.current.values.get k) v).1 else p.current.values.get j := by
  have hset := set_eq hp k hv
  have hcases := reply_cases hp k (p.current.values.get k) hv
  generalize p.reply k (p.current.values.get k) v = x at hset hcases
  obtain ⟨new, update⟩ := x
  rw [hset]
  rcases hcases with ⟨h1, h2⟩ | ⟨r, h1, -⟩
  · change new = _ at h1
    have hsame : p.current.values.get j = if j = k then new else p.current.values.get j := by
      split
      · next h => rw [h1, h]
      · rfl
    cases update with
    | changed r => exact absurd rfl (h2 r)
    | unchanged => exact hsame
    | inactive => exact hsame
  · change update = .changed r at h1
    subst h1
    exact PerControl.get_set _ _ _ _

theorem set_notFinite (p : Panel) (k : Control) {v : Float32} (hv : ¬ v.isFinite) :
    p.set k v = p.fail (.notFinite k v) := by
  rw [set, stage, if_neg hv]

/-- Batches of finite values that end in the same value for each control do the same: they store the
replies to all controls at once, then tell them. -/
theorem setAll_of_last (hp : p.Formed) {last : PerControl (Option Float32)}
    (h1 : ∀ k v, last.get k = some v → v.isFinite) :
    ∃ (next : Settings) (updates : PerControl (Option Update)),
      (∀ k, (next.values.get k, updates.get k) = p.replyTo k (last.get k))
      ∧ ∀ entries, (∀ e ∈ entries, e.2.isFinite) → lastValues entries = last →
        p.setAll entries =
          if next = p.current then
            ⟨.ok (entries.map fun e => (updates.get e.1).getD .inactive), p, []⟩
          else
            ⟨.ok (entries.map fun e => (updates.get e.1).getD .inactive), p.publish next,
              .store next.pack :: Control.all.flatMap (p.calls updates)⟩ := by
  obtain ⟨next, updates, h2, h3⟩ := stageAll_eq hp h1
  refine ⟨next, updates, h3, ?_⟩
  intro entries h4 h5
  have h6 : entries.find? (fun e => !e.2.isFinite) = none :=
    List.find?_eq_none.2 fun e he => by simp [h4 e he]
  rw [setAll, h6, h5]
  simp only [h2]
  rfl

theorem setAll_eq (hp : p.Formed) {entries : List (Control × Float32)}
    (h1 : ∀ e ∈ entries, e.2.isFinite) :
    ∃ (next : Settings) (updates : PerControl (Option Update)),
      (∀ k, (next.values.get k, updates.get k) = p.replyTo k ((lastValues entries).get k))
      ∧ p.setAll entries =
        if next = p.current then
          ⟨.ok (entries.map fun e => (updates.get e.1).getD .inactive), p, []⟩
        else
          ⟨.ok (entries.map fun e => (updates.get e.1).getD .inactive), p.publish next,
            .store next.pack :: Control.all.flatMap (p.calls updates)⟩ := by
  obtain ⟨next, updates, h2, h3⟩ := setAll_of_last hp (finite_lastValues h1)
  exact ⟨next, updates, h2, h3 entries h1 rfl⟩

/-- What a batch of finite values leaves and tells, part by part. -/
theorem setAll_parts (hp : p.Formed) {entries : List (Control × Float32)}
    (h1 : ∀ e ∈ entries, e.2.isFinite) :
    ∃ (next : Settings) (updates : PerControl (Option Update)),
      (∀ k, (next.values.get k, updates.get k) = p.replyTo k ((lastValues entries).get k))
      ∧ (p.setAll entries).panel.current = next
      ∧ (p.setAll entries).result = .ok (entries.map fun e => (updates.get e.1).getD .inactive)
      ∧ (p.setAll entries).signals = if next = p.current then []
        else .store next.pack :: Control.all.flatMap (p.calls updates) := by
  obtain ⟨next, updates, h2, h3⟩ := setAll_eq hp h1
  refine ⟨next, updates, h2, ?_⟩
  rw [h3]
  by_cases h : next = p.current
  · rw [if_pos h, if_pos h]
    exact ⟨h.symm, rfl, rfl⟩
  · rw [if_neg h, if_neg h]
    exact ⟨rfl, rfl, rfl⟩

/-! ## batches that are refused -/

theorem setAll_of_first (p : Panel) {good rest : List (Control × Float32)} {k : Control}
    {v : Float32} (h1 : ∀ x ∈ good, x.2.isFinite) (hv : ¬ v.isFinite) :
    p.setAll (good ++ (k, v) :: rest) = p.fail (.notFinite k v) := by
  have hfind : (good ++ (k, v) :: rest).find? (fun x => !x.2.isFinite) = some (k, v) := by
    refine List.find?_eq_some_iff_append.2 ⟨by simp [hv], good, rest, rfl, ?_⟩
    intro x hx
    simp [h1 x hx]
  rw [setAll, hfind]

theorem exists_first {entries : List (Control × Float32)} (h1 : ¬ ∀ x ∈ entries, x.2.isFinite) :
    ∃ good k v rest, entries = good ++ (k, v) :: rest ∧ (∀ x ∈ good, x.2.isFinite)
      ∧ ¬ v.isFinite := by
  induction entries with
  | nil => exact absurd (fun _ h => absurd h List.not_mem_nil) h1
  | cons x entries ih =>
    by_cases hx : x.2.isFinite
    · obtain ⟨good, k, v, rest, rfl, h2, h3⟩ := ih fun h => h1 (List.forall_mem_cons.2 ⟨hx, h⟩)
      exact ⟨x :: good, k, v, rest, rfl, List.forall_mem_cons.2 ⟨hx, h2⟩, h3⟩
    · exact ⟨[], x.1, x.2, entries, rfl, fun _ h => absurd h List.not_mem_nil, hx⟩

theorem setAll_isOk_iff (hp : p.Formed) (entries : List (Control × Float32)) :
    (p.setAll entries).result.isOk ↔ ∀ x ∈ entries, x.2.isFinite := by
  constructor
  · intro h
    by_contra hn
    obtain ⟨good, k, v, rest, rfl, h1, hv⟩ := exists_first hn
    rw [setAll_of_first p h1 hv] at h
    cases h
  · intro h
    -- the second pass stages them all
    obtain ⟨next, updates, -, h1⟩ := setAll_eq hp h
    rw [h1]
    split <;> rfl

end Panel
end HueSaturation
