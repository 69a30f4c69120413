import HueSaturation.Proofs.Number.Whole

/-!
# Quotients, and how far rounding goes

* `rounds_div`       a quotient is the float nearest to the exact one;
* `abs_rnd_sub_le`   rounding moves a number by half a last place at most;
* `abs_rnd_le`       it does not lead out of a power of two, so what stays within one is finite
                     (`Rounds.within`);
* `finite_toFloat32_short`, `toNat_toUInt16`   conversion from and to words of 16 bits.
-/

namespace HueSaturation
namespace Binary32

open Float.Model
open Float.Model.UnpackedFloat

/-! ## division -/

/-- The remainder says on which side of the half the quotient lies. -/
theorem holds_quotient (m : ℕ) {d : ℕ} (hd : 0 < d) :
    Holds (.ofMantissaAndAccuracy (m / d) (accuracyOfFraction (m % d) d)) ((m : ℚ) / d) := by
  have hpos : (0 : ℚ) < d := by exact_mod_cast hd
  have hlt : ((m % d : ℕ) : ℚ) < d := by exact_mod_cast Nat.mod_lt m hd
  obtain ⟨r, hr⟩ : ∃ r : ℚ, r = ((m % d : ℕ) : ℚ) / d := ⟨_, rfl⟩
  have hsum : (m : ℚ) / d = (m / d : ℕ) + r := by
    have h1 : (m : ℚ) = (m / d : ℕ) * d + (m % d : ℕ) := by
      exact_mod_cast (Nat.div_add_mod' m d).symm
    rw [hr, div_eq_iff hpos.ne', add_mul, div_mul_cancel₀ _ hpos.ne', ← h1]
  have hr1 : r < 1 := by rw [hr]; exact (div_lt_one hpos).2 hlt
  rw [hsum, accuracyOfFraction]
  split
  · next h =>
    have hr0 : r = 0 := by rw [hr, h]; simp
    rw [hr0, add_zero]
    exact holds_exact (m / d)
  · next h =>
    have hr0 : 0 < r := by
      have h1 : (0 : ℚ) < (m % d : ℕ) := by exact_mod_cast Nat.pos_of_ne_zero h
      rw [hr]
      positivity
    have htwice : compare (2 * (m % d)) d = compare r (1 / 2) := by
      have h1 : ((2 * (m % d) : ℕ) : ℚ) = 2 * r * d := by
        rw [hr, mul_assoc, div_mul_cancel₀ _ hpos.ne']
        push_cast
        rfl
      rcases lt_trichotomy (2 * (m % d)) d with h2 | h2 | h2
      · have h3 : 2 * r * d < d := by rw [← h1]; exact_mod_cast h2
        rw [compare_lt_iff_lt.2 h2, compare_lt_iff_lt.2]
        have := lt_of_mul_lt_mul_right (h3.trans_eq (one_mul (d : ℚ)).symm) hpos.le
        linarith
      · have h3 : 2 * r * d = d := by rw [← h1]; exact_mod_cast h2
        rw [compare_eq_iff_eq.2 h2, compare_eq_iff_eq.2]
        have := mul_right_cancel₀ hpos.ne' (h3.trans (one_mul (d : ℚ)).symm)
        linarith
      · have h3 : (d : ℚ) < 2 * r * d := by rw [← h1]; exact_mod_cast h2
        rw [compare_gt_iff_gt.2 h2, compare_gt_iff_gt.2]
        have := lt_of_mul_lt_mul_right ((one_mul (d : ℚ)).trans_lt h3) hpos.le
        show 1 / 2 < r
        linarith
    rw [htwice]
    rcases lt_trichotomy r (1 / 2) with h1 | h1 | h1
    · rw [compare_lt_iff_lt.2 h1]
      constructor <;> simp [ExtendedMantissa.ofMantissaAndAccuracy, half]
      · exact hr0.le
      · linarith
      · exact hr0.ne'
    · rw [compare_eq_iff_eq.2 h1, h1]
      constructor <;> simp [ExtendedMantissa.ofMantissaAndAccuracy, half]
    · rw [compare_gt_iff_gt.2 h1]
      constructor <;> simp [ExtendedMantissa.ofMantissaAndAccuracy, half]
      · linarith
      · linarith
      · exact fun h2 => by linarith

theorem apply_div (s t : Sign) : (s / t).apply 1 = s.apply 1 * t.apply 1 := by
  cases s <;> cases t <;> rfl

/-- The quotient is taken to enough bits: 24 of them, or down to the least float. -/
theorem quotient_exponent_le {m n : ℕ} {d : ℤ} (hm : 0 < m) (hn : 0 < n) {t : ℤ}
    (h1 : t = min d (max (m.log2 + d - n.log2 - 24) (-149))) :
    t ≤ max (((m <<< (d - t).toNat / n : ℕ).log2 : ℤ) + t - 23) (-149) := by
  by_cases h2 : t ≤ -149
  · omega
  have h3 : n.log2 + 24 ≤ m.log2 + (d - t).toNat := by omega
  have h4 : 2 ^ 23 ≤ m <<< (d - t).toNat / n := by
    rw [Nat.le_div_iff_mul_le hn, Nat.shiftLeft_eq]
    calc 2 ^ 23 * n ≤ 2 ^ 23 * 2 ^ (n.log2 + 1) := by gcongr; exact Nat.lt_log2_self.le
      _ = 2 ^ (n.log2 + 24) := by rw [← pow_add]; congr 1; omega
      _ ≤ 2 ^ (m.log2 + (d - t).toNat) := Nat.pow_le_pow_right (by norm_num) h3
      _ = 2 ^ m.log2 * 2 ^ (d - t).toNat := pow_add ..
      _ ≤ m * 2 ^ (d - t).toNat := by gcongr; exact Nat.log2_self_le hm.ne'
  have h5 : 23 ≤ (m <<< (d - t).toNat / n).log2 := (Nat.le_log2 (by omega)).2 h4
  omega

theorem div_canonical {u v : UnpackedFloat} (hu : Canonical u) (hv : Canonical v)
    (h0 : worth v ≠ 0) :
    Canonical (UnpackedFloat.div Format.binary32 u v)
      ∧ worth (UnpackedFloat.div Format.binary32 u v) = rnd (worth u / worth v) := by
  cases hv with
  | zero t => exact absurd rfl h0
  | finite t n f hn h4 h5 h6 =>
    cases hu with
    | zero s =>
      refine ⟨.zero _, ?_⟩
      rw [show worth (.zero s) = 0 from rfl, zero_div, rnd_zero]
      rfl
    | finite s m e hm h1 h2 h3 =>
      obtain ⟨x, hx⟩ : ∃ x, x = min (e - f) (max (m.log2 + (e - f) - n.log2 - 24 : ℤ) (-149)) :=
        ⟨_, rfl⟩
      have hcore : divCore Format.binary32 m e n f = (m <<< (e - f - x).toNat / n, x,
          accuracyOfFraction (m <<< (e - f - x).toNat % n) n) := by
        have h7 : min (e - f)
            (Format.binary32.targetExponent (totalExponent m e - totalExponent n f)) = x := by
          have h8 : Format.binary32.minExponent = -149 := by decide
          have h9 : (Format.binary32.mantissaBits : ℤ) = 24 := rfl
          rw [hx, Format.targetExponent, totalExponent, totalExponent, h8, h9]
          congr 2
          omega
        rw [divCore, h7]
      obtain ⟨M, hM⟩ : ∃ M, M = m <<< (e - f - x).toNat := ⟨_, rfl⟩
      have hMpos : 0 < M := by rw [hM]; exact Nat.shiftLeft_pos_iff.2 hm
      have hnpos : (0 : ℚ) < n := by exact_mod_cast hn
      have hround := roundWithAccuracy_signed (s / t) (holds_quotient M hn)
        Nat.cast_div_le (by
          rw [div_lt_iff₀ hnpos, mul_comm]
          exact_mod_cast Nat.lt_mul_div_succ M hn) (by positivity)
        (by rw [hM]; exact quotient_exponent_le hm hn hx)
      have hval : (M : ℚ) / n * 2 ^ x = m * 2 ^ e / (n * 2 ^ f) := by
        have h7 : (2 : ℚ) ^ (e - f - x).toNat * 2 ^ x = 2 ^ e / 2 ^ f := by
          rw [two_pow_mul, ← zpow_sub₀ (by norm_num)]
          congr 1
          omega
        rw [hM, Nat.shiftLeft_eq]
        push_cast
        rw [mul_div_right_comm, mul_assoc, h7]
        field_simp
      have hsign : ((t.apply 1 : ℤ) : ℚ)⁻¹ = (t.apply 1 : ℤ) := by
        cases t <;> norm_num [Sign.apply]
      rw [UnpackedFloat.div, hcore, ← hM]
      refine ⟨hround.canonical, hround.worth_eq.trans ?_⟩
      rw [← rnd_apply, hval, worth, worth, apply_eq_mul s m, apply_eq_mul t n, apply_div]
      congr 1
      push_cast
      calc _ = ((s.apply 1 : ℤ) : ℚ) * ((t.apply 1 : ℤ) : ℚ)⁻¹ * (m * 2 ^ e / (n * 2 ^ f)) := by
            rw [hsign]
        _ = _ := by ring

theorem rounds_div {x y : Float32} (hx : x.isFinite) (hy : y.isFinite) (h0 : val y ≠ 0) :
    Rounds (x / y) (val x / val y) := by
  obtain ⟨h1, h2⟩ := div_canonical (unpacked_canonical hx).1 (unpacked_canonical hy).1 h0
  exact ⟨_, h1, h2, rfl⟩

/-! ## how far rounding goes -/

theorem abs_nearest_sub_le (q : ℚ) : |(nearest q : ℚ) - q| ≤ 1 / 2 := by
  obtain ⟨k, ⟨h1, h2⟩ | h1 | ⟨h1, h2⟩⟩ := exists_unit q
  · rw [nearest_of_lt h1 h2, abs_le]
    constructor <;> linarith
  · rw [nearest_of_eq h1, h1, abs_le]
    have h2 : (0 : ℚ) ≤ (k % 2 : ℤ) := by exact_mod_cast Int.emod_nonneg k (by norm_num)
    have h3 : ((k % 2 : ℤ) : ℚ) ≤ 1 := by
      have : k % 2 ≤ 1 := by omega
      exact_mod_cast this
    push_cast
    constructor <;> linarith
  · rw [nearest_of_gt h1 h2, abs_le]
    push_cast
    constructor <;> linarith

theorem spacing_le {q : ℚ} {k : ℤ} (hq : q ≠ 0) (h1 : |q| < 2 ^ k) :
    spacing q ≤ max (k - 24) (-149) := by
  have h2 : Int.log 2 |q| < k :=
    (Int.lt_zpow_iff_log_lt (by norm_num) (abs_pos.2 hq)).1 (by exact_mod_cast h1)
  rw [spacing]
  omega

theorem abs_rnd_sub_le {q : ℚ} {k : ℤ} (h1 : |q| < 2 ^ k) (h2 : -125 ≤ k) :
    |rnd q - q| ≤ 2 ^ (k - 25) := by
  rcases eq_or_ne q 0 with rfl | hq
  · rw [rnd_zero, sub_zero, abs_zero]
    positivity
  have hs : spacing q ≤ k - 24 := by
    have := spacing_le hq h1
    omega
  have h3 : rnd q - q = (nearest (q / 2 ^ spacing q) - q / 2 ^ spacing q) * 2 ^ spacing q := by
    rw [rnd, sub_mul, div_mul_cancel₀ _ (by positivity)]
  rw [h3, abs_mul, abs_of_pos (by positivity : (0 : ℚ) < 2 ^ spacing q)]
  calc _ ≤ 1 / 2 * (2 : ℚ) ^ spacing q := by gcongr; exact abs_nearest_sub_le _
    _ ≤ 1 / 2 * 2 ^ (k - 24) := by gcongr; norm_num
    _ = 2 ^ (k - 25) := by
      rw [show k - 24 = 1 + (k - 25) by ring, zpow_add₀ (by norm_num), zpow_one]
      ring

theorem abs_rnd_le {q : ℚ} {k : ℤ} (h1 : |q| ≤ 2 ^ k) (h2 : -149 ≤ k) : |rnd q| ≤ 2 ^ k := by
  rcases eq_or_ne q 0 with rfl | hq
  · rw [rnd_zero, abs_zero]
    positivity
  have hs : spacing q ≤ k := by
    have h3 : |q| < 2 ^ (k + 1) := h1.trans_lt (zpow_lt_zpow_right₀ (by norm_num) (by omega))
    have := spacing_le hq h3
    omega
  obtain ⟨N, hN⟩ : ∃ N : ℤ, (N : ℚ) * 2 ^ spacing q = 2 ^ k := by
    refine ⟨2 ^ (k - spacing q).toNat, ?_⟩
    push_cast
    rw [two_pow_mul]
    congr 1
    omega
  have hpos : (0 : ℚ) < 2 ^ spacing q := by positivity
  rw [← hN, abs_le] at h1
  have hlow : -N ≤ nearest (q / 2 ^ spacing q) := by
    refine le_nearest ?_
    rw [le_div_iff₀ hpos]
    push_cast
    linarith [h1.1]
  have hhigh : nearest (q / 2 ^ spacing q) ≤ N := by
    refine nearest_le ?_
    rw [div_le_iff₀ hpos]
    exact h1.2
  have h3 : |(nearest (q / 2 ^ spacing q) : ℚ)| ≤ N := by
    rw [abs_le]
    exact ⟨by exact_mod_cast hlow, by exact_mod_cast hhigh⟩
  rw [rnd, abs_mul, abs_of_pos hpos, ← hN]
  gcongr

theorem rnd_nonneg {q : ℚ} (h1 : 0 ≤ q) : 0 ≤ rnd q := by
  have h2 : (0 : ℤ) ≤ nearest (q / 2 ^ spacing q) := le_nearest (by push_cast; positivity)
  have h3 : (0 : ℚ) ≤ nearest (q / 2 ^ spacing q) := by exact_mod_cast h2
  rw [rnd]
  positivity

theorem le_rnd {q : ℚ} {k : ℤ} (h1 : 2 ^ k ≤ q) (h2 : -149 ≤ k) : 2 ^ k ≤ rnd q := by
  have hq : 0 < q := lt_of_lt_of_le (by positivity) h1
  obtain ⟨l, hl⟩ : ∃ l, l = Int.log 2 q := ⟨_, rfl⟩
  have hkl : k ≤ l := by
    rw [hl]
    exact (Int.zpow_le_iff_le_log (by norm_num) hq).1 (by exact_mod_cast h1)
  have hlq : (2 : ℚ) ^ l ≤ q := by rw [hl]; exact_mod_cast Int.zpow_log_le_self (by norm_num) hq
  have hs : spacing q = max (l - 23) (-149) := by rw [spacing, abs_of_pos hq, hl]
  have hpow : (2 : ℚ) ^ l = ((2 ^ (l - spacing q).toNat : ℤ) : ℚ) * 2 ^ spacing q := by
    push_cast
    rw [two_pow_mul]
    congr 1
    omega
  have hpos : (0 : ℚ) < 2 ^ spacing q := by positivity
  have h3 : (2 ^ (l - spacing q).toNat : ℤ) ≤ nearest (q / 2 ^ spacing q) := by
    refine le_nearest ?_
    rw [le_div_iff₀ hpos, ← hpow]
    exact hlq
  have h4 : ((2 ^ (l - spacing q).toNat : ℤ) : ℚ) ≤ nearest (q / 2 ^ spacing q) := by
    exact_mod_cast h3
  calc (2 : ℚ) ^ k ≤ 2 ^ l := zpow_le_zpow_right₀ (by norm_num) hkl
    _ = ((2 ^ (l - spacing q).toNat : ℤ) : ℚ) * 2 ^ spacing q := hpow
    _ ≤ nearest (q / 2 ^ spacing q) * 2 ^ spacing q := by gcongr

theorem rnd_le {q : ℚ} {k : ℤ} (h1 : q ≤ 2 ^ k) (h2 : -149 ≤ k) : rnd q ≤ 2 ^ k := by
  rcases le_total 0 q with h | h
  · exact (le_abs_self _).trans (abs_rnd_le (by rw [abs_of_nonneg h]; exact h1) h2)
  · have h3 := rnd_nonneg (neg_nonneg.2 h)
    rw [rnd_neg] at h3
    exact (neg_nonneg.1 h3).trans (by positivity)

theorem le_abs_rnd {q : ℚ} {k : ℤ} (h1 : 2 ^ k ≤ |q|) (h2 : -149 ≤ k) : 2 ^ k ≤ |rnd q| := by
  rcases le_total 0 q with h | h
  · rw [abs_of_nonneg h] at h1
    exact (le_rnd h1 h2).trans (le_abs_self _)
  · rw [abs_of_nonpos h] at h1
    have h3 := le_rnd h1 h2
    rw [rnd_neg] at h3
    exact h3.trans (neg_le_abs _)

theorem Rounds.within {x : Float32} {q : ℚ} (h1 : Rounds x q) {k : ℤ} (h2 : |q| ≤ 2 ^ k)
    (h3 : -149 ≤ k) (h4 : k ≤ 127) : x.isFinite ∧ val x = rnd q ∧ |val x| ≤ 2 ^ k := by
  have h5 := abs_rnd_le h2 h3
  have h6 : (2 : ℚ) ^ k < 2 ^ 128 := by
    have h7 : (2 : ℚ) ^ k < 2 ^ (128 : ℤ) := zpow_lt_zpow_right₀ (by norm_num) (by omega)
    exact_mod_cast h7
  obtain ⟨h7, h8⟩ := h1.finite (h5.trans_lt h6)
  exact ⟨h7, h8, h8 ▸ h5⟩

/-- What is less than a half off rounds to the whole number. -/
theorem away_eq {q : ℚ} {n : ℤ} (h1 : |q - n| < 1 / 2) : away q = n := by
  rw [abs_lt] at h1
  rw [away, oddly]
  split
  · rw [Int.floor_eq_iff]
    constructor <;> linarith
  · rw [neg_eq_iff_eq_neg, Int.floor_eq_iff]
    push_cast
    constructor <;> linarith

/-! ## words of 16 bits -/

theorem finite_toFloat32_short (n : UInt16) : n.toFloat32.isFinite ∧ val n.toFloat32 = n.toNat := by
  have h1 : Rounds n.toFloat32 (n.toNat : ℤ) := by
    obtain ⟨h1, h2⟩ := normalize_canonical n.toNat 0 .positive
    exact ⟨_, h1, h2.trans (by simp), rfl⟩
  have h2 := n.toNat_lt
  exact h1.whole (by rw [Nat.abs_cast]; omega)

theorem toNat_toUInt16 {x : Float32} (hx : x.isFinite) {n : ℕ} (h1 : val x = n) (h2 : n < 2 ^ 16) :
    x.toUInt16.toNat = n := by
  have h3 : (unpacked x).toInt 0 (UInt16.size - 1) = ⌊val x⌋ :=
    toInt_canonical (unpacked_canonical hx).1 (by rw [← val, h1]; positivity) _ _
  have h4 : ((unpacked x).toInt 0 (UInt16.size - 1)).toNat = n := by
    rw [h3, h1, Int.floor_natCast, Int.toNat_natCast]
  show (UInt16.ofNatClamp ((unpacked x).toInt 0 (UInt16.size - 1)).toNat).toNat = n
  rw [h4, UInt16.toNat_ofNatClamp_of_lt h2]

end Binary32
end HueSaturation
