import HueSaturation.Proofs.Color.Effects
import HueSaturation.Proofs.Number.Turns
import HueSaturation.Stage.Vibrance

/-!
# Vibrance on colors of the same value

The weight of a pixel is a number whatever the angle functions return: a hue that is "not a number"
has no affinity to flesh tones. So the stage keeps values, and with the identity matrix it keeps the
pixel.

* `Vibrance.inUnit_affinity`   the affinity is in `[0, 1]`;
* `Vibrance.same_moved`        pixels of the same value and affinity move to the same value;
* `Vibrance.same_moved_self`   the identity moves no pixel.
-/

namespace HueSaturation

open Binary32 (val)

variable {j k : ℕ} {fns : Elementary Float32}

theorem hueDistance_cases (x y : Float32) :
    hueDistance x y = 0.0 / 0.0 ∨ Binary32.InUnit (hueDistance x y) := by
  rw [hueDistance]
  rcases Binary32.turn_cases (x - y) with h | h
  · left
    simp only [h]
    decide +kernel
  · right
    simp only [Scalar.least]
    split
    · exact h
    · exact Binary32.inUnit_one_sub h

theorem Rgb.Same.spread {p q : Rgb Float32} (h1 : p.Same k q) (hk : k ≤ 126) :
    Binary32.Same (k + 1) p.spread q.spread :=
  ((h1.r.greatest h1.g).greatest h1.b).sub ((h1.r.least h1.g).least h1.b) hk

namespace Vibrance

variable {p q : Rgb Float32} {m : ColorMatrix Float32} {w w' x y z z' : Float32}

theorem inUnit_closeness (hx : Binary32.InUnit x) :
    Binary32.InUnit (Scalar.greatest (1.0 - x / 0.1) 0.0) := by
  have hlow : 1 / 16 ≤ val 0.1 := Binary32.sixteenth_le rfl (by decide +kernel)
  have hratio : 0 ≤ val x / val 0.1 ∧ val x / val 0.1 ≤ 16 := by
    refine ⟨div_nonneg hx.2.1 (by linarith), ?_⟩
    rw [div_le_iff₀ (by linarith)]
    linarith [hx.2.2]
  obtain ⟨h1, h2, h3⟩ := (Binary32.rounds_div hx.1 rfl (by linarith)).within (k := 4)
    (by rw [abs_of_nonneg hratio.1]; exact hratio.2.trans (by norm_num)) (by norm_num)
    (by norm_num)
  have hnonneg : 0 ≤ val (x / 0.1) := by
    rw [h2]
    exact Binary32.rnd_nonneg hratio.1
  have hsame : Binary32.Same 4 (x / 0.1) (x / 0.1) := .refl h1 (by exact_mod_cast h3)
  have hone := ColorMatrix.same_one.mono (Nat.zero_le 4)
  refine Binary32.inUnit_greatest (hone.sub hsame (by omega)).left ?_
  rw [hone.val_sub hsame (by omega), Binary32.val_one, ← zpow_zero (2 : ℚ)]
  refine Binary32.rnd_le ?_ (by norm_num)
  rw [zpow_zero]
  linarith

theorem inUnit_affinity (fns : Elementary Float32) (p : Rgb Float32) :
    Binary32.InUnit (skinAffinity fns p) := by
  rw [skinAffinity]
  split
  · exact Binary32.inUnit_zero
  rcases hueDistance_cases (p.toPolar fns).hue 0.375 with h | h
  · have h1 : Scalar.greatest (1.0 - (0.0 / 0.0 : Float32) / 0.1) 0.0 = 0.0 := by decide +kernel
    rw [h, h1]
    exact Binary32.inUnit_zero
  · exact inUnit_closeness h

theorem same_strength (h1 : Binary32.Same k x y) (ha : Binary32.InUnit w) :
    Binary32.Same 3 (strength x w) (strength y w) := by
  have hrest := ColorMatrix.same_one.sub h1.unit (by omega)
  have hdamped := ColorMatrix.same_one.sub
    (Binary32.inUnit_half.same.mul ha.same (by omega)) (by omega)
  exact (hrest.mul hrest (by omega)).mul hdamped (by omega)

theorem same_weight (h1 : p.Same 0 q) (h2 : skinAffinity fns p = skinAffinity fns q) :
    Binary32.Same 3 (weight fns p) (weight fns q) := by
  rw [weight, weight, h2]
  exact same_strength (h1.spread (by omega)) (inUnit_affinity fns q)

/-! ## moved pixels -/

theorem same_pull (h1 : Binary32.Same 0 x y) (h2 : Binary32.Same 11 z z')
    (h3 : Binary32.Same 3 w w') : Binary32.Same 15 (w * (z - x)) (w' * (z' - y)) :=
  h3.mul (h2.sub (h1.mono (Nat.zero_le 11)) (by omega)) (by omega)

theorem same_moved (hm : m.Sound 8) (h1 : p.Same 0 q) (hw : Binary32.Same 3 w w') :
    (Vibrance.moved ⟨m.band⟩ w p).Same 16 (Vibrance.moved ⟨m.band⟩ w' q) := by
  obtain ⟨hr, hg, hb⟩ := hm.same.apply (by omega) h1
  have hadd : ∀ {x y z z' : Float32}, Binary32.Same 0 x y → Binary32.Same 11 z z' →
      Binary32.Same 16 (x + w * (z - x)) (y + w' * (z' - y)) := fun h2 h3 =>
    (h2.mono (Nat.zero_le 15)).add (same_pull h2 h3 hw) (by omega)
  exact ⟨hadd h1.r hr, hadd h1.g hg, hadd h1.b hb⟩

theorem plain_moved (hm : m.Sound 8) (h1 : p.Same 0 p) (hw : Binary32.Same 3 w w)
    (hp : p.Plain) : (Vibrance.moved ⟨m.band⟩ w p).Plain := by
  obtain ⟨hr, hg, hb⟩ := hm.same.apply (by omega) h1
  have hadd : ∀ {x z : Float32}, Binary32.Same 0 x x → Binary32.Same 11 z z →
      Binary32.Plain x → Binary32.Plain (x + w * (z - x)) := fun h2 h3 h4 =>
    (h2.mono (Nat.zero_le 15)).plain_add (same_pull h2 h3 hw) (by omega) (.inl h4)
  exact ⟨hadd h1.r hr hp.r, hadd h1.g hg hp.g, hadd h1.b hb hp.b⟩

theorem same_moved_self (hm : m.Sound 8) (hidentity : m.band.isIdentity) (h1 : p.Same 0 p)
    (hw : Binary32.Same 3 w w) : (Vibrance.moved ⟨m.band⟩ w p).Same 0 p := by
  obtain ⟨hr, hg, hb⟩ := ColorMatrix.apply_identity hm.same hidentity h1
  have hadd : ∀ {x z : Float32}, Binary32.Same 0 x x → Binary32.Same 3 z x →
      Binary32.Same 0 (x + w * (z - x)) x := fun h2 h3 => h2.add_zero (hw.mul_zero h3.sub_self)
  exact ⟨hadd h1.r hr, hadd h1.g hg, hadd h1.b hb⟩

end Vibrance
end HueSaturation
