import HueSaturation.Proofs.Control.Batch
import HueSaturation.Proofs.Number.Same

/-!
# The nearest accepted value

A slider rounds first, a half away from zero, and cuts down to the whole units of its range
afterwards. What comes out is nearest to the value among all that the slider accepts: where the
cut moves it, the other whole units are farther away still.

* `nearer_of_cut`             the cut of the nearest whole number against another one in range;
* `Slider.holds_of_accepts`   what a slider accepts are its whole units;
* `Slider.IsNearest`          the nearest accepted value, of two the one farther from zero;
* `rounds_to_nearest`         what a slider rounds to, and what becomes of it in a panel.
-/

namespace HueSaturation

open Binary32 (val away)

/-! ## whole numbers in a range -/

section
variable {lo hi m n : ℤ} {q : ℚ}

theorem abs_sub_lt_abs_sub {a b : ℚ} (h1 : 0 < (b - a) * (b + a - 2 * q)) : |a - q| < |b - q| := by
  have h2 : (b - q) ^ 2 - (a - q) ^ 2 = (b - a) * (b + a - 2 * q) := by ring
  exact sq_lt_sq.1 (by linarith)

theorem nearer_of_cut_of_nonneg (hq : 0 ≤ q) (hn : n = lo ⊔ hi ⊓ away q) (h1 : lo ≤ m) (h2 : m ≤ hi)
    (h3 : m ≠ n) : |n - q| < |m - q| ∨ |n - q| = |m - q| ∧ |m| < |n| := by
  have hlow : (away q : ℚ) ≤ q + 1 / 2 := by
    rw [Binary32.away_of_nonneg hq]
    exact Int.floor_le _
  have hhigh : q + 1 / 2 < away q + 1 := by
    rw [Binary32.away_of_nonneg hq]
    exact Int.lt_floor_add_one _
  generalize away q = z at hn hlow hhigh
  rcases lt_or_gt_of_ne h3 with h | h
  · -- `q` is not below the middle of the two, and in it only if they are neighbours
    have h4 : (m : ℚ) + 1 ≤ n := by exact_mod_cast h
    have h5 : (n : ℚ) ≤ z := by exact_mod_cast (by omega : n ≤ z)
    rcases (by linarith : (m : ℚ) + n ≤ 2 * q).lt_or_eq with h6 | h6
    · exact .inl (abs_sub_lt_abs_sub (mul_pos_of_neg_of_neg (by linarith) (by linarith)))
    · have h7 : (n : ℚ) ≤ m + 1 := by linarith
      have h8 : (0 : ℚ) ≤ m + n := by linarith
      have h9 : n ≤ m + 1 := by exact_mod_cast h7
      have h10 : 0 ≤ m + n := by exact_mod_cast h8
      refine .inr ⟨?_, ?_⟩
      · rw [← abs_neg]
        congr 1
        linarith
      · rw [abs_of_nonneg (by omega), abs_of_nonneg (by omega)]
        exact h
  · -- `q` is below the middle of the two
    have h4 : (n : ℚ) + 1 ≤ m := by exact_mod_cast h
    have h5 : (z : ℚ) ≤ n := by exact_mod_cast (by omega : z ≤ n)
    exact .inl (abs_sub_lt_abs_sub (mul_pos (by linarith) (by linarith)))

/-- Another whole number of the range is farther from `q` than the cut of the nearest one, or as
far on the side of zero. -/
theorem nearer_of_cut (hn : n = lo ⊔ hi ⊓ away q) (h1 : lo ≤ m) (h2 : m ≤ hi) (h3 : m ≠ n) :
    |n - q| < |m - q| ∨ |n - q| = |m - q| ∧ |m| < |n| := by
  rcases le_or_gt 0 q with hq | hq
  · exact nearer_of_cut_of_nonneg hq hn h1 h2 h3
  · have hneg : -n = -hi ⊔ -lo ⊓ away (-q) := by
      rw [Binary32.away_neg]
      omega
    have hmirror : ∀ k : ℤ, |((-k : ℤ) : ℚ) - -q| = |k - q| := by
      intro k
      rw [← abs_neg]
      push_cast
      congr 1
      ring
    have h4 := nearer_of_cut_of_nonneg (m := -m) (by linarith) hneg (by omega) (by omega) (by omega)
    rw [hmirror, hmirror, abs_neg, abs_neg] at h4
    exact h4

end

/-! ## sliders -/

namespace Slider

variable {s : Slider} {v w r t : Float32}

theorem holds_of_accepts (hs : s.Sound) (h1 : s.accepts v) :
    v.isFinite ∧ ∃ n : ℤ, val v = n ∧ s.Holds n := by
  rw [accepts, Bool.and_eq_true] at h1
  obtain ⟨hv, h2, h3⟩ := Binary32.finite_of_within hs.min hs.max h1.2
  obtain ⟨h4, h5⟩ := Binary32.finite_round hv
  have h6 : val v = away (val v) := ((Binary32.beq_iff hv h4).1 h1.1).trans h5
  refine ⟨hv, _, h6, Int.ceil_le.2 ?_, Int.le_floor.2 ?_⟩
  · rw [← h6]
    exact h2
  · rw [← h6]
    exact h3

theorem round?_of_accepts (hs : s.Sound) (h1 : s.accepts v) : s.round? v = some v := by
  obtain ⟨hv, n, h2, h3⟩ := holds_of_accepts hs h1
  obtain ⟨h4, h5⟩ := Binary32.finite_ceil hs.min
  obtain ⟨h6, h7⟩ := Binary32.finite_floor hs.max
  have h8 : Scalar.clamp (Binary32.ceil s.min) (Binary32.floor s.max) (Binary32.round v) = v := by
    rw [Binary32.round_of_whole hv h2]
    refine Binary32.clamp_of_between h4 h6 hv ?_ ?_
    · rw [h5, h2]
      exact_mod_cast h3.1
    · rw [h7, h2]
      exact_mod_cast h3.2
  obtain ⟨r, -, h9, -⟩ := round?_eq hs hv
  rw [round?] at h9 ⊢
  split at h9
  · next h => rw [if_pos h, h8]
  · cases h9

/-- The accepted value `r` is nearest to `v`; another one as near is nearer to zero. -/
structure IsNearest (s : Slider) (v r : Float32) : Prop where
  accepted : s.accepts r
  nearest : ∀ a, s.accepts a → |val r - val v| ≤ |val a - val v|
  outer : ∀ a, s.accepts a → |val a - val v| = |val r - val v| → val a ≠ val r → |val a| < |val r|

theorem round?_nearest (hs : s.Sound) (hv : v.isFinite) (h1 : s.round? v = some r) :
    s.IsNearest v r := by
  obtain ⟨r', n, h2, hr, h3, h4, h5⟩ := round?_eq hs hv
  obtain rfl : r' = r := Option.some.inj (h2.symm.trans h1)
  have hother : ∀ a, s.accepts a → val a ≠ val r' → |val r' - val v| < |val a - val v|
      ∨ |val r' - val v| = |val a - val v| ∧ |val a| < |val r'| := by
    intro a ha hne
    obtain ⟨-, m, h6, h7⟩ := holds_of_accepts hs ha
    rw [h6, h3] at hne ⊢
    have h8 := nearer_of_cut h5 h7.1 h7.2 (by exact_mod_cast hne)
    exact_mod_cast h8
  refine ⟨accepts_of_holds hs hr h3 h4, ?_, ?_⟩
  · intro a ha
    by_cases hne : val a = val r'
    · rw [hne]
    · exact (hother a ha hne).elim le_of_lt fun h => h.1.le
  · intro a ha heq hne
    exact (hother a ha hne).elim (fun h => absurd heq h.ne') And.right

theorem round?_mono (hs : s.Sound) (hv : v.isFinite) (hw : w.isFinite) (h1 : v ≤ w)
    (h2 : s.round? v = some r) (h3 : s.round? w = some t) : r ≤ t := by
  obtain ⟨r', m, h4, hr, h5, -, h6⟩ := round?_eq hs hv
  obtain ⟨t', n, h7, ht, h8, -, h9⟩ := round?_eq hs hw
  obtain rfl : r' = r := Option.some.inj (h4.symm.trans h2)
  obtain rfl : t' = t := Option.some.inj (h7.symm.trans h3)
  have haway : away (val v) ≤ away (val w) := Binary32.away_mono ((Binary32.le_iff hv hw).1 h1)
  have hmn : m ≤ n := by omega
  rw [Binary32.le_iff hr ht, h5, h8]
  exact_mod_cast hmn

end Slider

/-! ## values in a panel -/

namespace Panel

variable {p q : Panel} {k : Control} {old : Int16} {v r : Float32}

/-- A reply that changes a value tells the one that is read afterwards. -/
theorem value_of_reply (hp : p.Formed) (hq : q.sliders = p.sliders) (hv : v.isFinite)
    (h1 : q.current.values.get k = (p.reply k old v).1) (h2 : (p.reply k old v).2 = .changed r) :
    ∃ x, q.value k = some x ∧ r == x := by
  have hk : q.isRegistered k := by
    rw [isRegistered, hq]
    cases hk : p.sliders.get k with
    | none =>
      rw [reply_of_none hk] at h2
      cases h2
    | some slider => rfl
  refine ⟨q.current.value k, if_pos hk, ?_⟩
  show r == (Scalar.ofInt (q.current.values.get k).toInt : Float32)
  rw [h1]
  rcases reply_cases hp k old hv with ⟨-, h3⟩ | ⟨r', h3, -, h4⟩
  · exact absurd h2 (h3 r)
  · rw [h2] at h3
    obtain rfl : r = r' := Update.changed.inj h3
    exact h4

theorem value_of_changed_set (hp : p.Valid) (h1 : (p.set k v).result = .ok (.changed r)) :
    ∃ x, (p.set k v).panel.value k = some x ∧ r == x := by
  by_cases hv : v.isFinite
  · refine value_of_reply hp.toFormed (p.set_sliders k v) hv
      ((get_current_set hp.toFormed k hv k).trans (if_pos rfl)) ?_
    rw [set_result hp.toFormed k hv] at h1
    exact Except.ok.inj h1
  · rw [set_notFinite p k hv] at h1
    cases h1

theorem value_of_changed_setAll (hp : p.Valid) {entries : List (Control × Float32)}
    {answer : List Update} (h1 : (p.setAll entries).result = .ok answer) {i : ℕ}
    {e : Control × Float32} (h2 : entries[i]? = some e) (h3 : answer[i]? = some (.changed r)) :
    ∃ x, (p.setAll entries).panel.value e.1 = some x ∧ r == x := by
  have hfinite : ∀ e ∈ entries, e.2.isFinite :=
    (setAll_isOk_iff hp.toFormed entries).1 (by rw [h1]; rfl)
  obtain ⟨next, updates, h4, hnext, hanswer, -⟩ := setAll_parts hp.toFormed hfinite
  obtain rfl := Except.ok.inj (h1.symm.trans hanswer)
  obtain ⟨w, hw⟩ := lastGiven_of_mem (List.mem_of_getElem? h2)
  have hlast : (lastValues entries).get e.1 = some w := (get_lastValues _ _).trans hw
  have hk := h4 e.1
  rw [hlast] at hk
  obtain ⟨h6, h7⟩ := Prod.mk.inj hk
  refine value_of_reply hp.toFormed (p.setAll_sliders entries)
    (finite_lastValues hfinite _ _ hlast) (by rw [hnext, h6]) ?_
  rw [List.getElem?_map, h2, Option.map_some, h7] at h3
  exact Option.some.inj h3

theorem set_twice (hp : p.Valid) (hk : p.isRegistered k) (hv : v.isFinite) :
    ((p.set k v).panel.set k v).result = .ok .unchanged := by
  obtain ⟨slider, hslider⟩ := Option.isSome_iff_exists.1 hk
  obtain ⟨r, -, h1, h2⟩ := reply_eq hp.toFormed hslider hv
  have hstored : (p.set k v).panel.current.values.get k = Settings.slotValue r := by
    rw [get_current_set hp.toFormed k hv, if_pos rfl, h2]
  rw [set_result (set_lawful hp k v).valid.toFormed k hv, reply_congr (p.set_sliders k v), h2,
    hstored, if_pos ((h1 _).2 rfl)]

end Panel

/-- **Rounding gives the nearest accepted value.** A slider without fault rounds every finite value
to a whole number in its range and in `[-2047, 2047]`, which it accepts; no other value that it
accepts is nearer, and one as near is nearer to zero. What it accepts are the values that it leaves
as they are, and a larger value is not rounded to a smaller one. On any panel that calls lead to,
the same finite value for a registered control leaves everything unchanged the second time, and a
value that is told as changed is the one that is read afterwards. -/
theorem rounds_to_nearest (s : Slider) (h : s.fault? = none) (calls : List Panel.Call) :
    (∀ v : Float32, v.isFinite → ∃ r, s.round? v = some r ∧ r.isFinite
        ∧ (∃ n : ℤ, val r = n ∧ -2047 ≤ n ∧ n ≤ 2047) ∧ s.min ≤ r ∧ r ≤ s.max
        ∧ s.IsNearest v r ∧ s.round? r = some r ∧ (s.accepts v ↔ r == v))
      ∧ (∀ v w r t : Float32, v.isFinite → w.isFinite → v ≤ w → s.round? v = some r →
        s.round? w = some t → r ≤ t)
      ∧ let p := Panel.empty.after calls
        (∀ k v, p.isRegistered k → v.isFinite →
          ((p.set k v).panel.set k v).result = .ok .unchanged)
        ∧ (∀ k v r, (p.set k v).result = .ok (.changed r) →
          ∃ x, (p.set k v).panel.value k = some x ∧ r == x)
        ∧ ∀ entries (answer : List Update), (p.setAll entries).result = .ok answer →
          ∀ (i : ℕ) (e : Control × Float32) r, entries[i]? = some e →
            answer[i]? = some (.changed r) →
            ∃ x, (p.setAll entries).panel.value e.1 = some x ∧ r == x := by
  have hs := Slider.sound_of_fault? h
  refine ⟨?_, fun v w r t => Slider.round?_mono hs, ?_⟩
  · intro v hv
    obtain ⟨r, n, h1, hr, h2, h3, -⟩ := Slider.round?_eq hs hv
    obtain ⟨h4, h5⟩ := abs_le.1 (hs.bound h3)
    have h6 := Slider.round?_nearest hs hv h1
    refine ⟨r, h1, hr, ⟨n, h2, h4, h5⟩, ?_, ?_, h6, Slider.round?_of_accepts hs h6.accepted, ?_⟩
    · rw [Binary32.le_iff hs.min hr, h2]
      exact Int.ceil_le.1 h3.1
    · rw [Binary32.le_iff hr hs.max, h2]
      exact Int.le_floor.1 h3.2
    · constructor
      · intro h7
        obtain rfl := Option.some.inj (h1.symm.trans (Slider.round?_of_accepts hs h7))
        exact (Binary32.beq_iff hr hr).2 rfl
      · intro h7
        exact Slider.accepts_of_holds hs hv (((Binary32.beq_iff hr hv).1 h7).symm.trans h2) h3
  · intro p
    have hp : p.Valid := Panel.valid_empty.after calls
    exact ⟨fun k v => Panel.set_twice hp, fun k v r => Panel.value_of_changed_set hp,
      fun entries answer h1 i e r => Panel.value_of_changed_setAll hp h1⟩

/-- In `[0.5, 10.5]` the upper bound itself goes down to 10: 11 is out of range. -/
theorem rounds_to_nearest_of_fractional_range :
    let s : Slider := { min := 0.5, max := 10.5, default := 1.0 }
    s.fault? = none ∧ (10.5 : Float32).isFinite ∧ s.round? 10.5 = some 10.0
      ∧ s.IsNearest 10.5 10.0 ∧ s.round? 10.0 = some 10.0 := by
  intro s
  have h : s.fault? = none := by decide +kernel
  have h1 : s.round? 10.5 = some 10.0 := by decide +kernel
  obtain ⟨h2, -⟩ := rounds_to_nearest s h []
  obtain ⟨r, h3, -, -, -, -, h4, h5, -⟩ := h2 10.5 rfl
  obtain rfl : r = 10.0 := Option.some.inj (h3.symm.trans h1)
  exact ⟨h, rfl, h1, h4, h5⟩

/-- A control that is not registered ignores a value every time. -/
theorem unregistered_ignores_twice :
    let again := (Panel.empty.set .hue 10.0).panel.set .hue 10.0
    (10.0 : Float32).isFinite ∧ again.result = .ok .inactive ∧ again.result ≠ .ok .unchanged :=
  ⟨rfl, rfl, fun h => nomatch h⟩

end HueSaturation
