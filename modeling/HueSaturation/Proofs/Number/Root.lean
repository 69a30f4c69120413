import HueSaturation.Proofs.Number.Turns

/-!
# Square roots

The machine takes the root of a whole number of last places, and notes from what is left over on
which side of the half the square root lies.

* `exists_holds_root`   what the whole root and this note hold, beside the square root;
* `rootExponent`, `radicand`   the last place of the root, and the number whose root is taken;
* `sqrt_signed`         the root of the machine is a rounded one;
* `inUnit_sqrt`         so the root of what is in `[0, 1]` is in `[0, 1]`.
-/

namespace HueSaturation
namespace Binary32

open Float.Model
open Float.Model.UnpackedFloat

/-- A quarter more than the mantissa is held if something follows it below the half. -/
theorem holds_below (m : ℕ) : Holds (.ofMantissaAndAccuracy m (.inexact .lt)) (m + 1 / 4) := by
  constructor <;> norm_num [ExtendedMantissa.ofMantissaAndAccuracy, half]

theorem holds_above (m : ℕ) : Holds (.ofMantissaAndAccuracy m (.inexact .gt)) (m + 3 / 4) := by
  constructor <;> norm_num [ExtendedMantissa.ofMantissaAndAccuracy, half]
  linarith

/-- What the root of `n` leaves over says on which side of the half the square root lies. -/
def rootAccuracy (n : ℕ) : Accuracy :=
  if n - n.sqrt * n.sqrt = 0 then .exact
  else .inexact (if n - n.sqrt * n.sqrt ≤ n.sqrt then .lt else .gt)

/-- What the root of `n` and its accuracy hold is up to every whole number that the square root is
up to. -/
theorem exists_holds_root (n : ℕ) :
    ∃ q : ℚ, Holds (.ofMantissaAndAccuracy n.sqrt (rootAccuracy n)) q ∧ n.sqrt ≤ q ∧
      q < n.sqrt + 1 ∧ ∀ k : ℕ, n ≤ k * k → q ≤ k := by
  have hle : n.sqrt * n.sqrt ≤ n := Nat.sqrt_le n
  unfold rootAccuracy
  split
  · next h =>
    refine ⟨n.sqrt, holds_exact n.sqrt, le_rfl, lt_add_one _, fun k hk => ?_⟩
    exact_mod_cast Nat.mul_self_le_mul_self_iff.1 (hle.trans hk)
  · next h =>
    have hnext {k : ℕ} (hk : n ≤ k * k) : (n.sqrt : ℚ) + 1 ≤ k := by
      have h1 : n.sqrt < k := Nat.mul_self_lt_mul_self_iff.1 (by omega)
      exact_mod_cast h1
    split
    · exact ⟨n.sqrt + 1 / 4, holds_below _, by linarith, by linarith, fun k hk => by
        linarith [hnext hk]⟩
    · exact ⟨n.sqrt + 3 / 4, holds_above _, by linarith, by linarith, fun k hk => by
        linarith [hnext hk]⟩

/-- The exponent of the last place to which the root of `m * 2 ^ e` is taken. -/
def rootExponent (m : ℕ) (e : ℤ) : ℤ :=
  min (e / 2) (max ((m.log2 + 1 + e + 1) / 2 - 24) (-149))

def radicand (m : ℕ) (e : ℤ) : ℕ :=
  m <<< (e - 2 * rootExponent m e).toNat

theorem radicand_pos {m : ℕ} (e : ℤ) (hm : 0 < m) : 0 < radicand m e := by
  rw [radicand, Nat.shiftLeft_eq]
  positivity

theorem radicand_eq (m : ℕ) (e : ℤ) :
    (radicand m e : ℚ) = m * 2 ^ e * (2 ^ (-rootExponent m e) * 2 ^ (-rootExponent m e)) := by
  have hle : rootExponent m e ≤ e / 2 := min_le_left _ _
  rw [radicand, Nat.shiftLeft_eq, ← zpow_add₀ (by norm_num), mul_assoc, ← zpow_add₀ (by norm_num)]
  push_cast
  rw [← zpow_natCast]
  congr 2
  omega

/-- The root has at least the bits of a float. -/
theorem rootExponent_le {m : ℕ} (e : ℤ) (hm : 0 < m) :
    rootExponent m e ≤ max (((radicand m e).sqrt.log2 : ℤ) + rootExponent m e - 23) (-149) := by
  have hdef : rootExponent m e = min (e / 2) (max ((m.log2 + 1 + e + 1) / 2 - 24) (-149)) := rfl
  by_cases h1 : rootExponent m e ≤ -149
  · omega
  · have h2 : (radicand m e).log2 = m.log2 + (e - 2 * rootExponent m e).toNat :=
      log2_shiftLeft _ hm
    have h3 : 2 ^ 46 ≤ radicand m e := (Nat.le_log2 (radicand_pos e hm).ne').1 (by omega)
    have h4 : 2 ^ 23 ≤ (radicand m e).sqrt := Nat.le_sqrt.2 h3
    have h5 : 23 ≤ (radicand m e).sqrt.log2 := (Nat.le_log2 (by omega)).2 h4
    omega

theorem sqrt_eq {m : ℕ} {e : ℤ} (hm : 0 < m) :
    UnpackedFloat.sqrt Format.binary32 (.finite .positive m e hm)
      = roundWithAccuracy Format.binary32 .positive (radicand m e).sqrt (rootExponent m e)
          (rootAccuracy (radicand m e)) :=
  rfl

theorem sqrt_signed {m : ℕ} {e : ℤ} (hm : 0 < m) (h1 : (m : ℚ) * 2 ^ e ≤ 1) :
    ∃ q : ℚ, 0 < q ∧ q ≤ 1 ∧
      Signed .positive (rnd q) (UnpackedFloat.sqrt Format.binary32 (.finite .positive m e hm)) := by
  obtain ⟨q, h2, h3, h4, h5⟩ := exists_holds_root (radicand m e)
  have hexponent : rootExponent m e ≤ 0 := by
    have h6 : (1 : ℚ) ≤ m := by exact_mod_cast hm
    have h7 : rootExponent m e ≤ e / 2 := min_le_left _ _
    have h8 : e ≤ 0 := by
      by_contra hc
      have h9 : (1 : ℚ) < 2 ^ e := one_lt_zpow₀ (by norm_num) (by omega)
      nlinarith
    omega
  -- a whole number of last places makes up the one
  obtain ⟨k, hk⟩ : ∃ k : ℕ, (k : ℚ) = 2 ^ (-rootExponent m e) :=
    ⟨2 ^ (-rootExponent m e).toNat, by push_cast; rw [← zpow_natCast]; congr 1; omega⟩
  have hroot : radicand m e ≤ k * k := by
    have h6 : (radicand m e : ℚ) ≤ k * k := by
      rw [radicand_eq, ← hk]
      exact mul_le_of_le_one_left (by positivity) h1
    exact_mod_cast h6
  have hq : 0 < q := by
    have h6 : 0 < (radicand m e).sqrt := Nat.sqrt_pos.2 (radicand_pos e hm)
    exact lt_of_lt_of_le (by exact_mod_cast h6) h3
  refine ⟨q * 2 ^ rootExponent m e, by positivity, ?_, ?_⟩
  · calc q * 2 ^ rootExponent m e ≤ k * 2 ^ rootExponent m e := by gcongr; exact h5 k hroot
      _ = 1 := by rw [hk, ← zpow_add₀ (by norm_num), neg_add_cancel, zpow_zero]
  · rw [sqrt_eq hm]
    exact roundWithAccuracy_signed .positive h2 h3 h4 hq (rootExponent_le e hm)

theorem sqrt_canonical {u : UnpackedFloat} (hu : Canonical u) (h0 : 0 ≤ worth u)
    (h1 : worth u ≤ 1) : ∃ q : ℚ, 0 ≤ q ∧ q ≤ 1 ∧
      Canonical (UnpackedFloat.sqrt Format.binary32 u) ∧
      worth (UnpackedFloat.sqrt Format.binary32 u) = rnd q := by
  cases hu with
  | zero s => exact ⟨0, le_rfl, zero_le_one, .zero s, rnd_zero.symm⟩
  | finite s m e hm h2 h3 h4 =>
    cases s with
    | negative => exact absurd h0 (worth_neg m e hm).not_ge
    | positive =>
      obtain ⟨q, h5, h6, h7⟩ := sqrt_signed hm h1
      refine ⟨q, h5.le, h6, h7.canonical, h7.worth_eq.trans ?_⟩
      norm_num [Sign.apply]

/-- The square root of a float in `[0, 1]` is rounded from a number in it. -/
theorem inUnit_sqrt {x : Float32} (hx : InUnit x) : InUnit x.sqrt := by
  obtain ⟨q, h1, h2, h3, h4⟩ := sqrt_canonical (unpacked_canonical hx.1).1 hx.2.1 hx.2.2
  exact inUnit_of_rounds ⟨_, h3, h4, rfl⟩ h1 h2

end Binary32
end HueSaturation
