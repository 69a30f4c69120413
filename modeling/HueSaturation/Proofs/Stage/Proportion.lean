import HueSaturation.Proofs.Number.Between
import HueSaturation.Proofs.Stage.Vibrance

/-!
# The strength of vibrance is a proportion

Whatever the channels of a pixel are and whatever the angle functions return, how close its hue is
to flesh tones and the strength it gets are numbers in `[0, 1]`. The strength does not grow with the
channel spread, for all the rounding on the way, and is gone where the spread reaches one.

* `hueDistance_le_half`       two hues are at most half a turn apart;
* `Vibrance.inUnit_strength`, `strength_of_one_le`, `strength_anti`   the laws of the strength;
* `weight_is_a_proportion`    what they say of pixels.
-/

namespace HueSaturation

open Binary32 (val InUnit)

variable {a b s t : Float32}

/-- Two hues are at most half a turn apart, also where their difference was rounded up to a whole
turn. -/
theorem hueDistance_le_half (h : (a - b).isFinite) :
    InUnit (hueDistance a b) ∧ val (hueDistance a b) ≤ 1 / 2 := by
  have hturn := Binary32.turn_of_finite h
  have hrest := Binary32.inUnit_one_sub hturn
  have hhalf : 1 / 2 ≤ val (Scalar.turn (a - b)) → val (1.0 - Scalar.turn (a - b)) ≤ 1 / 2 :=
    Binary32.val_one_sub_le_half hturn
  have hlt : Scalar.lt (Scalar.turn (a - b)) (1.0 - Scalar.turn (a - b)) = true
      ↔ val (Scalar.turn (a - b)) < val (1.0 - Scalar.turn (a - b)) :=
    Binary32.lt_iff hturn.1 hrest.1
  simp only [hueDistance, Scalar.least, Binary32.isNaN_of_finite hrest.1, Bool.false_or]
  split
  · next h1 =>
    refine ⟨hturn, ?_⟩
    by_contra hc
    have h2 := hlt.1 h1
    have h3 := hhalf (not_le.1 hc).le
    linarith
  · next h1 =>
    refine ⟨hrest, ?_⟩
    have h2 := not_lt.1 (mt hlt.2 h1)
    rcases le_total (1 / 2) (val (Scalar.turn (a - b))) with h3 | h3
    · exact hhalf h3
    · exact h2.trans h3

namespace Vibrance

/-! ## the strength -/

/-- What the affinity to flesh tones leaves of the strength: half of it at least. -/
theorem inUnit_damping (ha : InUnit a) :
    InUnit (1.0 - 0.5 * a) ∧ 1 / 2 ≤ val (1.0 - 0.5 * a) := by
  have h1 := Binary32.inUnit_mul Binary32.inUnit_half ha
  have h2 : val (0.5 * a) ≤ 1 / 2 := by
    rw [← Binary32.val_half]
    exact Binary32.val_mul_le_left Binary32.inUnit_half ha
  have h3 := (Binary32.rounds_one_sub h1.1).between Binary32.inUnit_half.1 Binary32.inUnit_one.1
    (by rw [Binary32.val_half]; linarith) (by rw [Binary32.val_one]; linarith [h1.2.1])
  rw [Binary32.val_half] at h3
  exact ⟨Binary32.inUnit_one_sub h1, h3.2.1⟩

theorem inUnit_strength (s : Float32) (ha : InUnit a) : InUnit (strength s a) := by
  have h1 := Binary32.inUnit_one_sub (Binary32.inUnit_unit s)
  exact Binary32.inUnit_mul (Binary32.inUnit_mul h1 h1) (inUnit_damping ha).1

theorem strength_of_one_le (hs : (1.0 : Float32) ≤ s) (ha : InUnit a) : strength s a = 0.0 := by
  obtain ⟨⟨h1, -⟩, h2⟩ := inUnit_damping ha
  have h3 : (1.0 - 1.0 : Float32) * (1.0 - 1.0) = 0.0 := by decide +kernel
  simp only [strength, Binary32.unit_of_one_le hs]
  rw [h3, Binary32.mul_swap]
  exact Binary32.mul_zero_of_pos h1 (by linarith)

/-- Of two pixels with one affinity the one with the larger spread gets no more. -/
theorem strength_anti (h : s ≤ t) (ha : InUnit a) (hb : InUnit b) (hab : val a = val b) :
    val (strength t b) ≤ val (strength s a) := by
  have hs := Binary32.inUnit_unit s
  have ht := Binary32.inUnit_unit t
  have hs' := Binary32.inUnit_one_sub hs
  have ht' := Binary32.inUnit_one_sub ht
  have hhalf := Binary32.inUnit_half
  have hrest : val (1.0 - Scalar.unit t) ≤ val (1.0 - Scalar.unit s) :=
    Binary32.val_one_sub_anti hs ht (Binary32.unit_mono h)
  have hmuted : val ((1.0 - Scalar.unit t) * (1.0 - Scalar.unit t))
      ≤ val ((1.0 - Scalar.unit s) * (1.0 - Scalar.unit s)) :=
    Binary32.val_mul_mono ht' ht' hs' hs' hrest hrest
  have hskin : val (0.5 * a) ≤ val (0.5 * b) :=
    Binary32.val_mul_mono hhalf ha hhalf hb le_rfl hab.le
  have hdamping : val (1.0 - 0.5 * b) ≤ val (1.0 - 0.5 * a) :=
    Binary32.val_one_sub_anti (Binary32.inUnit_mul hhalf ha) (Binary32.inUnit_mul hhalf hb) hskin
  exact Binary32.val_mul_mono (Binary32.inUnit_mul ht' ht') (inUnit_damping hb).1
    (Binary32.inUnit_mul hs' hs') (inUnit_damping ha).1 hmuted hdamping

theorem inUnit_weight (fns : Elementary Float32) (p : Rgb Float32) : InUnit (weight fns p) :=
  inUnit_strength p.spread (inUnit_affinity fns p)

end Vibrance

/-- **The vibrance weight is a proportion.** For every pixel, also one with channels that are no
numbers, and for all angle functions: the affinity to flesh tones and the weight are numbers in
`[0, 1]`, a channel spread of at least one has no weight, and of two pixels with one affinity the
one with the larger spread has no larger weight. Hues whose difference is finite are at most half a
turn apart. -/
theorem weight_is_a_proportion (fns : Elementary Float32) :
    (∀ p : Rgb Float32, Scalar.within 0.0 1.0 (Vibrance.skinAffinity fns p)
      ∧ Scalar.isNaN (Vibrance.skinAffinity fns p) = false
      ∧ Scalar.within 0.0 1.0 (Vibrance.weight fns p)
      ∧ Scalar.isNaN (Vibrance.weight fns p) = false
      ∧ ((1.0 : Float32) ≤ p.spread → Vibrance.weight fns p = 0.0))
    ∧ (∀ a b : Float32, (a - b).isFinite → Scalar.within 0.0 0.5 (hueDistance a b))
    ∧ ∀ p q : Rgb Float32, Vibrance.skinAffinity fns p == Vibrance.skinAffinity fns q →
      p.spread ≤ q.spread → Vibrance.weight fns q ≤ Vibrance.weight fns p := by
  refine ⟨?_, ?_, ?_⟩
  · intro p
    have h1 := Vibrance.inUnit_affinity fns p
    have h2 := Vibrance.inUnit_weight fns p
    exact ⟨Binary32.within_of_inUnit h1, Binary32.isNaN_of_finite h1.1,
      Binary32.within_of_inUnit h2, Binary32.isNaN_of_finite h2.1,
      fun h => Vibrance.strength_of_one_le h h1⟩
  · intro a b h
    obtain ⟨h1, h2⟩ := hueDistance_le_half h
    have h3 : (0.0 : Float32) ≤ hueDistance a b := (Binary32.le_iff rfl h1.1).2 h1.2.1
    have h4 : hueDistance a b ≤ (0.5 : Float32) :=
      (Binary32.le_iff h1.1 Binary32.inUnit_half.1).2 (by rw [Binary32.val_half]; exact h2)
    exact Bool.and_eq_true_iff.2 ⟨h3, h4⟩
  · intro p q h1 h2
    have hp := Vibrance.inUnit_affinity fns p
    have hq := Vibrance.inUnit_affinity fns q
    have heq := (Binary32.beq_iff hp.1 hq.1).1 h1
    exact (Binary32.le_iff (Vibrance.inUnit_weight fns q).1 (Vibrance.inUnit_weight fns p).1).2
      (Vibrance.strength_anti h2 hp hq heq)

/-- A gray and the full blue are both far from flesh tones. -/
theorem weights_of_gray_and_blue :
    let fns : Elementary Float32 :=
      { exp2 := Float32.exp2, sin := Float32.sin, cos := Float32.cos
        atan2 := fun _ _ => -0.0777, hypot := fun x y => (x * x + y * y).sqrt, tau := 6.2831855 }
    let gray : Rgb Float32 := ⟨0.5, 0.5, 0.5⟩
    let blue : Rgb Float32 := ⟨0.0, 0.0, 1.0⟩
    ((1.0 : Float32) ≤ blue.spread ∧ Vibrance.weight fns blue = 0.0)
    ∧ ((0.9 - 0.1 : Float32).isFinite ∧ Scalar.within 0.0 0.5 (hueDistance (0.9 : Float32) 0.1))
    ∧ Vibrance.skinAffinity fns gray == Vibrance.skinAffinity fns blue
    ∧ gray.spread ≤ blue.spread ∧ Vibrance.weight fns blue ≤ Vibrance.weight fns gray := by
  intro fns gray blue
  obtain ⟨hpixel, hdistance, horder⟩ := weight_is_a_proportion fns
  have hspread : (1.0 : Float32) ≤ blue.spread := by decide +kernel
  have hfinite : (0.9 - 0.1 : Float32).isFinite := by decide +kernel
  have haffinity : Vibrance.skinAffinity fns gray == Vibrance.skinAffinity fns blue := by
    decide +kernel
  have hle : gray.spread ≤ blue.spread := by decide +kernel
  exact ⟨⟨hspread, (hpixel blue).2.2.2.2 hspread⟩, ⟨hfinite, hdistance _ _ hfinite⟩, haffinity, hle,
    horder _ _ haffinity hle⟩

end HueSaturation
