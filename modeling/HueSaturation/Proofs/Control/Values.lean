import HueSaturation.Control.Panel
import HueSaturation.Proofs.Number.Whole

/-!
# Values of sliders

A slider without a fault rounds every finite value to a whole unit of its range, which is at most
2047 in magnitude. Such a value is stored without loss, read back as the same float, and fits into
the 12 bits that it has in the published word.

* `Slider.Holds`, `Slider.Sound`   the whole units of a range; what makes a slider fit to round;
* `Slider.round?_eq`        what it rounds to;
* `Slider.accepts_of_holds`  it accepts its whole units;
* `Settings.toInt_slotValue`, `finite_value`   a value stored and read back;
* `Settings.abs_set_le`, `abs_unpack_le`   every way to make settings keeps to 12 bits;
* `Settings.value_at_rest_iff`   which floats are read at rest;
* `Settings.Fits`, `unpack_pack`   settings of 12 bits on the way through the word.
-/

namespace HueSaturation

open Binary32 (val away)

/-! ## sliders -/

namespace Slider

def Holds (s : Slider) (n : ℤ) : Prop :=
  ⌈val s.min⌉ ≤ n ∧ n ≤ ⌊val s.max⌋

/-- A slider that can round: its whole units lie within what can be stored. -/
structure Sound (s : Slider) : Prop where
  min : s.min.isFinite
  max : s.max.isFinite
  default : s.default.isFinite
  nonempty : ⌈val s.min⌉ ≤ ⌊val s.max⌋
  low : -2047 ≤ ⌈val s.min⌉
  high : ⌊val s.max⌋ ≤ 2047
  inside : val s.min ≤ val s.default ∧ val s.default ≤ val s.max

theorem le_ceil_of_away {q : ℚ} (h1 : -2047 ≤ away q) : -2047 ≤ ⌈q⌉ := by
  rcases le_or_gt 0 q with h | h
  · have := Int.ceil_nonneg h
    omega
  · have h2 : away q = -⌊-q + 1 / 2⌋ := if_neg (not_le.2 h)
    have h3 : ⌊-q⌋ ≤ ⌊-q + 1 / 2⌋ := Int.floor_le_floor (by linarith)
    rw [Int.floor_neg] at h3
    omega

theorem floor_le_of_away {q : ℚ} (h1 : away q ≤ 2047) : ⌊q⌋ ≤ 2047 := by
  rcases le_or_gt 0 q with h | h
  · have h2 : away q = ⌊q + 1 / 2⌋ := if_pos h
    have h3 : ⌊q⌋ ≤ ⌊q + 1 / 2⌋ := Int.floor_le_floor (by linarith)
    omega
  · have h2 : ⌊q⌋ < 0 := Int.floor_lt.2 (by push_cast; linarith)
    omega

theorem sound_of_fault? {s : Slider} (h1 : s.fault? = none) : s.Sound := by
  obtain ⟨h2, h3⟩ := Binary32.finite_ofInt (n := 2047) (by norm_num)
  obtain ⟨h4, h5⟩ := Binary32.finite_neg h2
  unfold fault? at h1
  simp only [] at h1
  split at h1
  · cases h1
  next hfin =>
  simp only [Bool.not_eq_true, Bool.not_eq_false', Bool.and_eq_true] at hfin
  obtain ⟨⟨⟨hmin, hmax⟩, hdefault⟩, hstep⟩ := hfin
  split at h1
  · cases h1
  split at h1
  · cases h1
  split at h1
  · cases h1
  next hwide =>
  split at h1
  · cases h1
  next hwhole =>
  split at h1
  · cases h1
  next hinside =>
  simp only [Bool.not_eq_true, Bool.not_eq_false', Scalar.within, Bool.and_eq_true] at hinside
  obtain ⟨h6, h7⟩ := Binary32.finite_round hmin
  obtain ⟨h8, h9⟩ := Binary32.finite_round hmax
  obtain ⟨h10, h11⟩ := Binary32.finite_ceil hmin
  obtain ⟨h12, h13⟩ := Binary32.finite_floor hmax
  rw [Bool.or_eq_true, decide_eq_true_iff, decide_eq_true_iff, not_or] at hwide
  obtain ⟨hlow, hhigh⟩ := hwide
  rw [maxValue, Binary32.lt_iff h6 h4, not_lt, h5, h3, h7] at hlow
  rw [maxValue, Binary32.lt_iff h2 h8, not_lt, h3, h9] at hhigh
  rw [Binary32.lt_iff h12 h10, not_lt, h11, h13] at hwhole
  refine ⟨hmin, hmax, hdefault, by exact_mod_cast hwhole, ?_, ?_, ?_, ?_⟩
  · exact le_ceil_of_away (by exact_mod_cast hlow)
  · exact floor_le_of_away (by exact_mod_cast hhigh)
  · exact (Binary32.le_iff hmin hdefault).1 hinside.1
  · exact (Binary32.le_iff hdefault hmax).1 hinside.2

theorem holds_cut {s : Slider} (h1 : s.Sound) (n : ℤ) :
    s.Holds (⌈val s.min⌉ ⊔ ⌊val s.max⌋ ⊓ n) :=
  ⟨le_max_left _ _, max_le h1.nonempty (min_le_left _ _)⟩

theorem Sound.bound {s : Slider} (h1 : s.Sound) {n : ℤ} (h2 : s.Holds n) : |n| ≤ 2047 := by
  obtain ⟨h3, h4⟩ := h2
  have h5 := h1.low
  have h6 := h1.high
  rw [abs_le]
  omega

/-- A slider that can round does, and what it gives is a whole unit of its range. -/
theorem round?_eq {s : Slider} (h1 : s.Sound) {v : Float32} (hv : v.isFinite) :
    ∃ r n, s.round? v = some r ∧ r.isFinite ∧ val r = (n : ℤ) ∧ s.Holds n
      ∧ n = ⌈val s.min⌉ ⊔ ⌊val s.max⌋ ⊓ away (val v) := by
  obtain ⟨h2, h3⟩ := Binary32.finite_ceil h1.min
  obtain ⟨h4, h5⟩ := Binary32.finite_floor h1.max
  obtain ⟨h6, h7⟩ := Binary32.finite_round hv
  have h8 : val (Binary32.ceil s.min) ≤ val (Binary32.floor s.max) := by
    rw [h3, h5]
    exact_mod_cast h1.nonempty
  obtain ⟨h9, h10⟩ := Binary32.finite_clamp h2 h4 h6 h8
  refine ⟨_, _, ?_, h9, ?_, holds_cut h1 (away (val v)), rfl⟩
  · rw [round?]
    exact if_pos ((Binary32.le_iff h2 h4).2 h8)
  · rw [h10, h3, h5, h7]
    push_cast
    rfl

theorem accepts_of_holds {s : Slider} (h1 : s.Sound) {v : Float32} {n : ℤ} (hv : v.isFinite)
    (h2 : val v = n) (h3 : s.Holds n) : s.accepts v := by
  obtain ⟨h4, h5⟩ := Binary32.finite_round hv
  have h7 : v == Binary32.round v :=
    (Binary32.beq_iff hv h4).2 (by rw [h5, h2, Binary32.away_intCast])
  have h8 : s.min ≤ v := (Binary32.le_iff h1.min hv).2 (by rw [h2]; exact Int.ceil_le.1 h3.1)
  have h9 : v ≤ s.max := (Binary32.le_iff hv h1.max).2 (by rw [h2]; exact Int.le_floor.1 h3.2)
  rw [accepts, h7, Bool.true_and, Scalar.within, Bool.and_eq_true]
  exact ⟨h8, h9⟩

end Slider

theorem Control.slider_sound (k : Control) : k.slider.Sound := by
  refine Slider.sound_of_fault? ?_
  cases k <;> rfl

theorem Control.slider_holds_zero (k : Control) : k.slider.Holds 0 := by
  obtain ⟨h1, h2⟩ := k.slider_sound.inside
  have h3 : val k.slider.default = 0 := by
    cases k <;> rfl
  rw [h3] at h1 h2
  exact ⟨Int.ceil_le.2 (by exact_mod_cast h1), Int.le_floor.2 (by exact_mod_cast h2)⟩

/-! ## stored values -/

namespace Settings

theorem finite_value (s : Settings) (k : Control) :
    (s.value k : Float32).isFinite ∧ val (s.value k) = (s.values.get k).toInt := by
  have h1 := (s.values.get k).toInt_lt
  have h2 := (s.values.get k).le_toInt
  exact Binary32.finite_ofInt (by rw [abs_lt]; omega)

theorem value_of_zero {s : Settings} {k : Control} (h : s.values.get k = 0) :
    (s.value k : Float32) = 0.0 := by
  rw [value, h]
  decide +kernel

/-- A float differs from zero just where the stored value does. -/
theorem value_at_rest_iff (s : Settings) (k : Control) :
    ((s.value k : Float32) != 0.0) = false ↔ s.values.get k = 0 := by
  obtain ⟨hfinite, hval⟩ := s.finite_value k
  rw [bne, Bool.not_eq_false', ← Int16.toInt_inj]
  have h1 := Binary32.beq_iff (y := 0.0) hfinite rfl
  rw [hval] at h1
  exact h1.trans Int.cast_eq_zero

theorem toInt_ne_zero {s : Settings} {k : Control} (h : ((s.value k : Float32) != 0.0) = true) :
    (s.values.get k).toInt ≠ 0 := by
  intro hzero
  rw [(s.value_at_rest_iff k).2 (Int16.toInt_inj.1 hzero)] at h
  exact Bool.noConfusion h

theorem finite_literal_max : (2047.0 : Float32).isFinite ∧ val 2047.0 = 2047 := by
  exact_mod_cast Binary32.finite_of_ofInt (n := 2047) (by decide +kernel) (by norm_num)

/-- A finite float is stored as the nearest whole number, cut down to what fits. -/
theorem slotValue_eq {v : Float32} (hv : v.isFinite) :
    (slotValue v).toInt = -2047 ⊔ 2047 ⊓ away (val v) := by
  obtain ⟨h1, h2⟩ := finite_literal_max
  obtain ⟨h3, h4⟩ := Binary32.finite_neg h1
  obtain ⟨h5, h6⟩ := Binary32.finite_round hv
  obtain ⟨h7, h8⟩ := Binary32.finite_clamp h3 h1 h5 (by rw [h4, h2]; norm_num)
  have hval : val (Scalar.clamp (-2047.0) 2047.0 (Binary32.round v))
      = ((-2047 ⊔ 2047 ⊓ away (val v) : ℤ) : ℚ) := by
    rw [h8, h4, h2, h6]
    push_cast
    rfl
  have hbound : |-2047 ⊔ 2047 ⊓ away (val v)| ≤ 2047 := by
    rw [abs_le]
    omega
  have hsmall : |val (Scalar.clamp (-2047.0) 2047.0 (Binary32.round v))| < 2 ^ 32 := by
    rw [hval]
    exact lt_of_le_of_lt (by exact_mod_cast hbound) (by norm_num : (2047 : ℚ) < 2 ^ 32)
  rw [slotValue, if_pos hv, Binary32.toInt_eq h7 hsmall, hval, Binary32.truncated_intCast]
  exact Int16.toInt_ofInt_of_le (by omega) (by omega)

theorem toInt_slotValue {v : Float32} {n : ℤ} (hv : v.isFinite) (h1 : val v = n) (h2 : |n| ≤ 2047) :
    (slotValue v).toInt = n := by
  rw [slotValue_eq hv, h1, Binary32.away_intCast]
  rw [abs_le] at h2
  omega

theorem abs_slotValue_le (v : Float32) : |(slotValue v).toInt| ≤ 2047 := by
  by_cases hv : v.isFinite
  · rw [slotValue_eq hv, abs_le]
    omega
  · rw [slotValue, if_neg hv]
    decide

/-- What is put in a slot keeps the settings to 12 bits. -/
theorem abs_set_le {s : Settings} (hs : ∀ k, |(s.values.get k).toInt| ≤ 2048) (k : Control)
    (v : Float32) : ∀ j, |((s.set k v).values.get j).toInt| ≤ 2048 := by
  intro j
  show |((s.values.set k (slotValue v)).get j).toInt| ≤ 2048
  rw [PerControl.get_set]
  split
  · exact (abs_slotValue_le v).trans (by norm_num)
  · exact hs j

/-! ## the word -/

theorem encodeSlot_lt (v : Int16) : encodeSlot v < 4096 := by
  unfold encodeSlot
  omega

theorem decodeSlot_encodeSlot {v : Int16} (h1 : -2048 ≤ v.toInt) (h2 : v.toInt ≤ 2047) :
    decodeSlot (encodeSlot v) = v := by
  have h3 : (if encodeSlot v < 2048 then (encodeSlot v : ℤ) else encodeSlot v - 4096)
      = v.toInt := by
    unfold encodeSlot
    split <;> omega
  rw [decodeSlot, h3, Int16.ofInt_toInt]

theorem toNat_pack (s : Settings) : s.pack.toNat = encodeSlot s.values.hue
    + 4096 * (encodeSlot s.values.saturation + 4096 * (encodeSlot s.values.vibrance
      + 4096 * (encodeSlot s.values.luminosity + 4096 * encodeSlot s.values.contrast))) := by
  have h1 := encodeSlot_lt s.values.hue
  have h2 := encodeSlot_lt s.values.saturation
  have h3 := encodeSlot_lt s.values.vibrance
  have h4 := encodeSlot_lt s.values.luminosity
  have h5 := encodeSlot_lt s.values.contrast
  exact Nat.mod_eq_of_lt (by omega)

/-- The slots are the digits of the word to the base 4096. -/
theorem slotBits_pack (s : Settings) (k : Control) :
    slotBits s.pack k.slot = encodeSlot (s.values.get k) := by
  have h1 := encodeSlot_lt s.values.hue
  have h2 := encodeSlot_lt s.values.saturation
  have h3 := encodeSlot_lt s.values.vibrance
  have h4 := encodeSlot_lt s.values.luminosity
  have h5 := encodeSlot_lt s.values.contrast
  rw [slotBits, toNat_pack]
  cases k with
  | hue => show _ / 1 % 4096 = encodeSlot s.values.hue; omega
  | saturation => show _ / 4096 % 4096 = encodeSlot s.values.saturation; omega
  | vibrance => show _ / 16777216 % 4096 = encodeSlot s.values.vibrance; omega
  | luminosity => show _ / 68719476736 % 4096 = encodeSlot s.values.luminosity; omega
  | contrast => show _ / 281474976710656 % 4096 = encodeSlot s.values.contrast; omega

theorem get_unpack (word : UInt64) (k : Control) :
    (unpack word).values.get k = decodeSlot (slotBits word k.slot) := by
  cases k <;> rfl

theorem slotBits_lt (word : UInt64) (i : ℕ) : slotBits word i < 4096 :=
  Nat.mod_lt _ (by norm_num)

theorem toInt_decodeSlot {n : ℕ} (h : n < 4096) :
    (decodeSlot n).toInt = if n < 2048 then (n : ℤ) else n - 4096 := by
  rw [decodeSlot]
  exact Int16.toInt_ofInt_of_le (by split <;> omega) (by split <;> omega)

theorem abs_decodeSlot_le {n : ℕ} (h : n < 4096) : |(decodeSlot n).toInt| ≤ 2048 := by
  rw [toInt_decodeSlot h, abs_le]
  split <;> omega

/-- Every word is read as settings of 12 bits. -/
theorem abs_unpack_le (word : UInt64) (k : Control) :
    |((unpack word).values.get k).toInt| ≤ 2048 := by
  rw [get_unpack]
  exact abs_decodeSlot_le (Nat.mod_lt _ (by norm_num))

/-- Every value is one of 12 bits in two's complement. -/
def Fits (s : Settings) : Prop :=
  ∀ k, -2048 ≤ (s.values.get k).toInt ∧ (s.values.get k).toInt ≤ 2047

theorem unpack_pack {s : Settings} (hs : s.Fits) : unpack s.pack = s := by
  have h1 : (unpack s.pack).values = s.values := by
    ext k
    rw [get_unpack, slotBits_pack, decodeSlot_encodeSlot (hs k).1 (hs k).2]
  exact congrArg Settings.mk h1

end Settings
end HueSaturation
