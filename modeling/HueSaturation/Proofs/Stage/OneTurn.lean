import HueSaturation.Proofs.Number.Between
import HueSaturation.Stage.HueRotation

/-!
# Hues and rotations within one turn

An angle modulo one turn is below one whole turn, unless the angle is negative and so close below a
whole number of turns that the turn added to it is rounded up. A rotation catches that case and does
not rotate then; the hues of the polar form do not catch it.

* `Binary32.RoundsUp`            the angles whose part above the whole number below is rounded up;
* `HueRotation.val_turns`        the turns of a rotation in value;
* `rotation_is_modulo_one_turn`  rotations by a whole number of turns more are the same rotation;
* `Elementary.AngleLaws`         what is relied on of the angle of a vector;
* `hues_stay_within_one_turn`    a hue is below one turn except where the angle rounds up.
-/

namespace HueSaturation

open Binary32 (val rnd)

variable {x y : Float32} {fns : Elementary Float32}

namespace Binary32

/-! ## angles that are rounded up to a whole turn -/

/-- A negative angle so close below a whole number of turns that adding one turn to what it has
beyond its whole part gives a whole one. -/
def RoundsUp (x : Float32) : Prop :=
  fraction x < 0.0 ∧ fraction x + 1.0 = 1.0

instance : DecidablePred RoundsUp := fun _ => instDecidableAnd

theorem roundsUp_iff_turn (hx : x.isFinite) : RoundsUp x ↔ val (Scalar.turn x) = 1 := by
  constructor
  · rintro ⟨h1, h2⟩
    rw [turn_eq, if_pos h1, h2, val_one]
  · intro h
    have hfinite := (turn_of_finite hx).1
    rw [turn_eq] at h hfinite
    split at h
    · next h1 =>
      rw [if_pos h1] at hfinite
      exact ⟨h1, eq_of_val hfinite rfl (h.trans val_one.symm) (by rw [h]; exact one_ne_zero)⟩
    · -- what a number has beyond its whole part is less than one
      have h2 := abs_sub_truncated_lt (val x)
      rw [← (finite_fraction hx).2, h, abs_one] at h2
      exact absurd h2 (lt_irrefl 1)

/-- An angle is rounded up from half a last place below a whole number on. -/
theorem roundsUp_iff (hx : x.isFinite) : RoundsUp x ↔ 1 - 2 ^ (-25 : ℤ) ≤ Int.fract (val x) := by
  rw [roundsUp_iff_turn hx, (finite_turn hx).2]
  exact rnd_eq_one_iff (Int.fract_nonneg _) (Int.fract_lt_one _)

/-- Whole numbers only are turned to zero: what is left of another is not rounded to nothing. -/
theorem turn_eq_zero_iff (hx : x.isFinite) : val (Scalar.turn x) = 0 ↔ ∃ n : ℤ, val x = n := by
  obtain ⟨hfinite, hval⟩ := finite_fraction hx
  constructor
  · intro h
    rw [turn_eq] at h
    split at h
    · have h1 := abs_sub_truncated_lt (val x)
      obtain ⟨-, h2, -⟩ := (rounds_add hfinite finite_literal_one.1).within (k := 1)
        (by
          rw [hval, val_one]
          linarith [abs_add_le (val x - truncated (val x)) 1, abs_one (α := ℚ)])
        (by norm_num) (by norm_num)
      have h3 := add_eq_zero_of_rnd hfinite finite_literal_one.1 (h2.symm.trans h)
      rw [hval, val_one] at h3
      rw [eq_neg_of_add_eq_zero_left h3, abs_neg, abs_one] at h1
      exact absurd h1 (lt_irrefl 1)
    · exact ⟨truncated (val x), sub_eq_zero.1 (hval ▸ h)⟩
  · rintro ⟨n, hn⟩
    rw [(finite_turn hx).2, hn, Int.fract_intCast, rnd_zero]

end Binary32

/-! ## rotations -/

namespace HueRotation

open Binary32

theorem turns_of_not_finite (hx : ¬ x.isFinite) : (ofFraction x).turns = 0.0 := by
  have h1 : Scalar.isFinite x = false := Bool.eq_false_iff.2 hx
  have h2 : Scalar.le 1.0 (0.0 : Float32) = false := by decide +kernel
  simp only [ofFraction, h1, h2, Bool.false_eq_true, if_false]

theorem turns_of_finite (hx : x.isFinite) : (ofFraction x).turns
    = if Scalar.le 1.0 (Scalar.turn x) then 0.0 else Scalar.turn x := by
  have h1 : Scalar.isFinite x = true := hx
  rw [ofFraction, h1]
  rfl

/-- The turns of a rotation in value: the rounded part of the fraction above the whole number below,
with a whole turn taken for none. -/
theorem val_turns (hx : x.isFinite) : (ofFraction x).turns.isFinite ∧
    val (ofFraction x).turns = if RoundsUp x then 0 else rnd (Int.fract (val x)) := by
  obtain ⟨hfinite, -, hle⟩ := turn_of_finite hx
  have hone : Scalar.le 1.0 (Scalar.turn x) = true ↔ RoundsUp x := by
    rw [roundsUp_iff_turn hx, ← hle.ge_iff_eq, ← val_one]
    exact le_iff rfl hfinite
  rw [turns_of_finite hx]
  simp only [hone]
  split
  · exact ⟨rfl, val_zero⟩
  · exact ⟨hfinite, (finite_turn hx).2⟩

theorem turns_lt_one (x : Float32) : (ofFraction x).turns.isFinite ∧
    0 ≤ val (ofFraction x).turns ∧ val (ofFraction x).turns < 1 := by
  by_cases hx : x.isFinite
  · obtain ⟨h1, h2⟩ := val_turns hx
    refine ⟨h1, ?_⟩
    rw [h2]
    split
    · exact ⟨le_rfl, one_pos⟩
    · next h =>
      rw [roundsUp_iff_turn hx] at h
      obtain ⟨-, h3, h4⟩ := turn_of_finite hx
      rw [← (finite_turn hx).2]
      exact ⟨h3, lt_of_le_of_ne h4 h⟩
  · rw [turns_of_not_finite hx]
    exact ⟨rfl, by rw [val_zero], by rw [val_zero]; exact one_pos⟩

theorem isIdentity_iff_val (x : Float32) :
    (ofFraction x).isIdentity = true ↔ val (ofFraction x).turns = 0 :=
  beq_iff (turns_lt_one x).1 rfl

theorem isIdentity_iff (x : Float32) : (ofFraction x).isIdentity = true ↔
    ¬ x.isFinite ∨ (∃ n : ℤ, val x = n) ∨ RoundsUp x := by
  rw [isIdentity_iff_val]
  by_cases hx : x.isFinite
  · rw [(val_turns hx).2, ← turn_eq_zero_iff hx, (finite_turn hx).2]
    split
    · next h => exact ⟨fun _ => .inr (.inr h), fun _ => rfl⟩
    · next h =>
      constructor
      · exact fun h1 => .inr (.inl h1)
      · rintro (h1 | h1 | h1)
        · exact absurd hx h1
        · exact h1
        · exact absurd h1 h
  · rw [turns_of_not_finite hx]
    exact ⟨fun _ => .inl hx, fun _ => val_zero⟩

/-- A number that does not rotate is near a whole one. -/
theorem exists_near_of_isIdentity (hx : x.isFinite) (h : (ofFraction x).isIdentity = true) :
    ∃ m : ℤ, |val x - m| ≤ 2 ^ (-25 : ℤ) := by
  rcases (isIdentity_iff x).1 h with h | ⟨m, hm⟩ | h
  · exact absurd hx h
  · exact ⟨m, by rw [hm, sub_self, abs_zero]; positivity⟩
  · rw [roundsUp_iff hx] at h
    have h1 := Int.fract_lt_one (val x)
    have h2 : val x - ((⌊val x⌋ + 1 : ℤ) : ℚ) = Int.fract (val x) - 1 := by
      rw [Int.fract]
      push_cast
      ring
    refine ⟨⌊val x⌋ + 1, ?_⟩
    rw [h2, abs_le]
    constructor <;> linarith

theorem fract_eq_of_whole (h : ∃ n : ℤ, val x - val y = n) :
    Int.fract (val x) = Int.fract (val y) := by
  obtain ⟨n, hn⟩ := h
  exact Int.fract_eq_fract.2 ⟨n, hn⟩

/-- A whole number of turns more is the same rotation in value. -/
theorem val_turns_eq (hx : x.isFinite) (hy : y.isFinite) (h : ∃ n : ℤ, val x - val y = n) :
    val (ofFraction x).turns = val (ofFraction y).turns := by
  have h1 := fract_eq_of_whole h
  have h2 : RoundsUp x ↔ RoundsUp y := by rw [roundsUp_iff hx, roundsUp_iff hy, h1]
  rw [(val_turns hx).2, (val_turns hy).2, h1]
  simp only [h2]

theorem applyPixel_eq (h : val (ofFraction x).turns = val (ofFraction y).turns)
    (p : Rgb Float32) : (ofFraction x).applyPixel fns p = (ofFraction y).applyPixel fns p := by
  by_cases h1 : val (ofFraction x).turns = 0
  · have h2 := (isIdentity_iff_val x).2 h1
    have h3 := (isIdentity_iff_val y).2 (h ▸ h1)
    rw [applyPixel, applyPixel, if_pos h2, if_pos h3]
  · have h2 := eq_of_val (turns_lt_one x).1 (turns_lt_one y).1 h h1
    have h3 : ofFraction x = ofFraction y := congrArg HueRotation.mk h2
    rw [h3]

end HueRotation

/-- **A rotation counts modulo one turn.** Whatever the fraction is, the turns are in `[0, 1)`. Two
fractions a whole number apart are one rotation, on every pixel. And nothing is rotated just where
the fraction is no finite number, a whole one, or rounded up to a whole one. -/
theorem rotation_is_modulo_one_turn :
    (∀ x : Float32, 0.0 ≤ (HueRotation.ofFraction x).turns ∧
      (HueRotation.ofFraction x).turns < 1.0) ∧
    (∀ x y : Float32, x.isFinite → y.isFinite → (∃ n : ℤ, val x - val y = n) →
      (HueRotation.ofFraction x == HueRotation.ofFraction y) = true ∧
      ∀ (fns : Elementary Float32) (p : Rgb Float32),
        (HueRotation.ofFraction x).applyPixel fns p = (HueRotation.ofFraction y).applyPixel fns p) ∧
    ∀ x : Float32, (HueRotation.ofFraction x).isIdentity = true ↔
      ¬ x.isFinite ∨ (∃ n : ℤ, val x = n) ∨ Binary32.RoundsUp x := by
  refine ⟨fun x => ?_, fun x y hx hy h => ?_, HueRotation.isIdentity_iff⟩
  · obtain ⟨h1, h2, h3⟩ := HueRotation.turns_lt_one x
    rw [Binary32.le_iff rfl h1, Binary32.lt_iff h1 rfl, Binary32.val_zero, Binary32.val_one]
    exact ⟨h2, h3⟩
  · have h1 := HueRotation.val_turns_eq hx hy h
    exact ⟨(Binary32.beq_iff (HueRotation.turns_lt_one x).1 (HueRotation.turns_lt_one y).1).2 h1,
      fun fns => HueRotation.applyPixel_eq h1⟩

/-- A quarter turn, and three quarters back. -/
theorem rotation_of_quarter_turn :
    (HueRotation.ofFraction (0.25 : Float32) == HueRotation.ofFraction (-0.75)) = true ∧
    ∀ (fns : Elementary Float32) (p : Rgb Float32), (HueRotation.ofFraction 0.25).applyPixel fns p
      = (HueRotation.ofFraction (-0.75)).applyPixel fns p :=
  rotation_is_modulo_one_turn.2.1 0.25 (-0.75) rfl rfl ⟨1, by decide +kernel⟩

/-! ## hues -/

/-- The angle of a vector is at most half a circle, to either side. -/
structure Elementary.AngleLaws (fns : Elementary Float32) : Prop where
  tau : fns.tau = 6.2831855
  atan2 : ∀ y x : Float32, y.isFinite → x.isFinite →
    Scalar.within (-3.1415927) 3.1415927 (fns.atan2 y x)

namespace Binary32

/-- An angle brought into one turn is in `[0, 1]`, and below one unless it is rounded up. -/
theorem turn_bounds (hx : x.isFinite) : 0.0 ≤ Scalar.turn x ∧ Scalar.turn x ≤ 1.0 ∧
    (Scalar.turn x < 1.0 ↔ ¬ RoundsUp x) := by
  obtain ⟨h1, h2, h3⟩ := turn_of_finite hx
  rw [le_iff rfl h1, le_iff h1 rfl, lt_iff h1 rfl, roundsUp_iff_turn hx, val_zero, val_one]
  exact ⟨h2, h3, lt_iff_le_and_ne.trans (and_iff_right h3)⟩

theorem inUnit_of_lt (h1 : 0.0 ≤ x) (h2 : x < 1.0) : InUnit x := by
  have hx : x.isFinite := by
    by_contra hx
    rcases special_cases hx with rfl | rfl | rfl
    · exact absurd h1 (by decide +kernel)
    · exact absurd h2 (by decide +kernel)
    · exact absurd h1 (by decide +kernel)
  rw [le_iff rfl hx, val_zero] at h1
  rw [lt_iff hx rfl, val_one] at h2
  exact ⟨hx, h1, h2.le⟩

end Binary32

/-- The angle of a vector in turns is a number. -/
theorem Elementary.AngleLaws.finite_turns (hfns : fns.AngleLaws) (hy : y.isFinite)
    (hx : x.isFinite) : (fns.atan2 y x / fns.tau).isFinite := by
  have hfour : (4.0 : Float32).isFinite ∧ val 4.0 = 4 :=
    Binary32.finite_of_ofInt (n := 4) (by decide +kernel) (by norm_num)
  have hlow : val (-4.0) ≤ val (-3.1415927) := (Binary32.le_iff rfl rfl).1 (by decide +kernel)
  have hhigh : val 3.1415927 ≤ val 4.0 := (Binary32.le_iff rfl rfl).1 (by decide +kernel)
  have htau : val 4.0 ≤ val 6.2831855 := (Binary32.le_iff rfl rfl).1 (by decide +kernel)
  obtain ⟨hfinite, hbelow, habove⟩ := Binary32.finite_of_within rfl rfl (hfns.atan2 y x hy hx)
  rw [(Binary32.finite_neg hfour.1).2, hfour.2] at hlow
  rw [hfour.2] at hhigh htau
  have hangle : |val (fns.atan2 y x)| ≤ 4 := abs_le.2 ⟨hlow.trans hbelow, habove.trans hhigh⟩
  have hpos : 0 < val 6.2831855 := lt_of_lt_of_le (by norm_num) htau
  rw [hfns.tau]
  refine ((Binary32.rounds_div hfinite rfl hpos.ne').within (k := 0) ?_ (by norm_num)
    (by norm_num)).1
  rw [abs_div, abs_of_pos hpos, zpow_zero, div_le_one hpos]
  exact hangle.trans htau

/-- **A hue stays within one turn, but may come to a whole one.** It is in `[0, 1]` in the polar
form and after every rotation, which changes nothing else. It is one just where the angle is rounded
up. -/
theorem hues_stay_within_one_turn (hfns : fns.AngleLaws) :
    (∀ c : LumaChroma Float32, c.cb.isFinite → c.cr.isFinite →
      0.0 ≤ (c.toPolar fns).hue ∧ (c.toPolar fns).hue ≤ 1.0 ∧ ((c.toPolar fns).hue < 1.0 ↔
        ¬ (0.0 < (c.toPolar fns).chroma ∧ Binary32.RoundsUp (fns.atan2 c.cr c.cb / fns.tau)))) ∧
    ∀ (p : Polar Float32) (turns : Float32), 0.0 ≤ p.hue → p.hue < 1.0 → turns.isFinite →
      (p.rotate turns).luma = p.luma ∧ (p.rotate turns).chroma = p.chroma ∧
      0.0 ≤ (p.rotate turns).hue ∧ (p.rotate turns).hue ≤ 1.0 ∧
      ((p.rotate turns).hue < 1.0 ↔ ¬ Binary32.RoundsUp (p.hue + turns)) := by
  constructor
  · intro c hb hr
    have hturn := Binary32.turn_bounds (hfns.finite_turns hr hb)
    have hhue : (c.toPolar fns).hue = if 0.0 < (c.toPolar fns).chroma
        then Scalar.turn (fns.atan2 c.cr c.cb / fns.tau) else 0.0 := by
      rw [LumaChroma.toPolar]
      rfl
    rw [hhue]
    split
    · next h => simpa only [h, true_and] using hturn
    · next h =>
      have hzero : (0.0 : Float32) < 1.0 := by decide +kernel
      exact ⟨by decide +kernel, by decide +kernel, fun _ hc => h hc.1, fun _ => hzero⟩
  · intro p turns h1 h2 hturns
    have hsum := Binary32.finite_inUnit_add (Binary32.inUnit_of_lt h1 h2) hturns
    exact ⟨rfl, rfl, Binary32.turn_bounds hsum⟩

/-- A pure blue difference has the hue zero, and an eighth of a turn is turned back by a half. -/
theorem hues_of_half_turn_back :
    let fns : Elementary Float32 :=
      { exp2 := Float32.exp2, sin := Float32.sin, cos := Float32.cos
        atan2 := fun _ _ => 0.0, hypot := fun x _ => x.abs, tau := 6.2831855 }
    fns.AngleLaws ∧ ((⟨0.5, 0.25, 0.0⟩ : LumaChroma Float32).toPolar fns).hue < 1.0 ∧
      ((⟨0.5, 0.25, 0.125⟩ : Polar Float32).rotate (-0.5)).hue < 1.0 := by
  intro fns
  have hzero : Scalar.within (-3.1415927) 3.1415927 (0.0 : Float32) = true := by decide +kernel
  have hfns : fns.AngleLaws := ⟨rfl, fun _ _ _ _ => hzero⟩
  obtain ⟨hpolar, hrotate⟩ := hues_stay_within_one_turn hfns
  refine ⟨hfns, (hpolar ⟨0.5, 0.25, 0.0⟩ rfl rfl).2.2.2 ?_, ?_⟩
  · exact fun h => absurd h.2 (by decide +kernel)
  · exact (hrotate ⟨0.5, 0.25, 0.125⟩ (-0.5) (by decide +kernel) (by decide +kernel) rfl).2.2.2.2.2
      (by decide +kernel)

/-- A hue of zero, turned back by a billionth of a turn, is a whole turn. -/
theorem hue_of_whole_turn :
    let p : Polar Float32 := ⟨0.5, 0.25, 0.0⟩
    0.0 ≤ p.hue ∧ p.hue < 1.0 ∧ (-1e-9 : Float32).isFinite ∧
      ¬ (0.0 ≤ (p.rotate (-1e-9)).hue ∧ (p.rotate (-1e-9)).hue < 1.0) := by
  decide +kernel

end HueSaturation
