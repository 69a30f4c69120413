import HueSaturation.Proofs.Number.Rounding

/-!
# Whole numbers near a float

The rounding functions drop the fraction with a conversion to a word and add or take away one where
that went the wrong way. None of these steps is inexact: from `2 ^ 23` on a float has no fraction,
and below it every whole number is a float.

* `truncated`, `away`   a number without its fraction, and the nearest whole number to it;
* `finite_trunc`, `finite_floor`, `finite_ceil`, `finite_round`   what the functions give;
* `toInt_eq`            conversion to an integer;
* `finite_clamp`, `clamp_of_between`   a number cut down to a range.
-/

namespace HueSaturation
namespace Binary32

open Float.Model
open Float.Model.UnpackedFloat

theorem finite_literal_one : (1.0 : Float32).isFinite ∧ val 1.0 = 1 := by
  have h1 : unpacked (1.0 : Float32) = .finite .positive 8388608 (-23) (by decide) := rfl
  refine ⟨rfl, ?_⟩
  rw [val, h1, worth]
  norm_num [Sign.apply]

theorem finite_literal_half : (0.5 : Float32).isFinite ∧ val 0.5 = 1 / 2 := by
  have h1 : unpacked (0.5 : Float32) = .finite .positive 8388608 (-24) (by decide) := rfl
  refine ⟨rfl, ?_⟩
  rw [val, h1, worth]
  norm_num [Sign.apply]

theorem finite_literal_limit : (8388608.0 : Float32).isFinite ∧ val 8388608.0 = 2 ^ 23 := by
  have h1 : unpacked (8388608.0 : Float32) = .finite .positive 8388608 0 (by decide) := rfl
  refine ⟨rfl, ?_⟩
  rw [val, h1, worth]
  norm_num [Sign.apply]

/-- A float is a multiple of the last place that its magnitude leaves. -/
theorem exists_multiple_of_le {x : Float32} (hx : x.isFinite) {k : ℤ} (h1 : 2 ^ k ≤ |val x|) :
    ∃ n : ℤ, val x = n * 2 ^ (k - 23) := by
  obtain ⟨m, e, h2, h3, h4⟩ := exists_bits (unpacked_canonical hx).1
  change val x = m * 2 ^ e at h4
  have h5 : k - 23 ≤ e := by
    have h6 : |(m : ℚ)| < 2 ^ (24 : ℤ) := by exact_mod_cast h2
    have h7 : (2 : ℚ) ^ k < 2 ^ (24 + e) := by
      rw [h4, abs_mul, abs_of_pos (by positivity : (0 : ℚ) < 2 ^ e)] at h1
      calc (2 : ℚ) ^ k ≤ |(m : ℚ)| * 2 ^ e := h1
        _ < 2 ^ (24 : ℤ) * 2 ^ e := by gcongr
        _ = 2 ^ (24 + e) := (zpow_add₀ (by norm_num) _ _).symm
    have h8 := (zpow_lt_zpow_iff_right₀ (by norm_num)).1 h7
    omega
  refine ⟨m * 2 ^ (e - (k - 23)).toNat, ?_⟩
  rw [h4]
  push_cast
  rw [mul_assoc, two_pow_mul]
  congr 2
  omega

theorem exists_whole_of_le {x : Float32} (hx : x.isFinite) (h1 : 2 ^ 23 ≤ |val x|) :
    ∃ n : ℤ, val x = n := by
  obtain ⟨n, h2⟩ := exists_multiple_of_le (k := 23) hx (by exact_mod_cast h1)
  exact ⟨n, by rw [h2, sub_self, zpow_zero, mul_one]⟩

/-! ## toward zero and to the nearest whole number -/

/-- The function `f` of the magnitude, with the sign of `q`. -/
def oddly (f : ℚ → ℤ) (q : ℚ) : ℤ :=
  if 0 ≤ q then f q else -f (-q)

def truncated (q : ℚ) : ℤ :=
  oddly (fun p => ⌊p⌋) q

/-- The whole number nearest to `q`, a half away from zero. -/
def away (q : ℚ) : ℤ :=
  oddly (fun p => ⌊p + 1 / 2⌋) q

theorem truncated_of_nonneg {q : ℚ} (h1 : 0 ≤ q) : truncated q = ⌊q⌋ :=
  if_pos h1

theorem truncated_of_neg {q : ℚ} (h1 : q < 0) : truncated q = ⌈q⌉ := by
  rw [truncated, oddly, if_neg (not_le.2 h1), Int.floor_neg, neg_neg]

theorem truncated_intCast (n : ℤ) : truncated n = n := by
  rcases le_or_gt 0 (n : ℚ) with h | h
  · rw [truncated_of_nonneg h, Int.floor_intCast]
  · rw [truncated_of_neg h, Int.ceil_intCast]

theorem away_intCast (n : ℤ) : away n = n := by
  have h1 : ∀ m : ℤ, ⌊(m : ℚ) + 1 / 2⌋ = m := by
    intro m
    rw [Int.floor_intCast_add]
    norm_num
  rcases le_or_gt 0 (n : ℚ) with h | h
  · exact (if_pos h).trans (h1 n)
  · refine (if_neg (not_le.2 h)).trans ?_
    show -⌊-(n : ℚ) + 1 / 2⌋ = n
    rw [← Int.cast_neg, h1, neg_neg]

theorem away_of_nonneg {q : ℚ} (h1 : 0 ≤ q) : away q = ⌊q + 1 / 2⌋ :=
  if_pos h1

theorem away_neg (q : ℚ) : away (-q) = -away q := by
  unfold away oddly
  rcases lt_trichotomy q 0 with h | h | h
  · rw [if_pos (by linarith), if_neg (not_le.2 h), neg_neg]
  · rw [h, neg_zero, if_pos le_rfl]
    norm_num
  · rw [if_neg (by linarith), if_pos h.le, neg_neg]

theorem away_nonneg {q : ℚ} (h1 : 0 ≤ q) : 0 ≤ away q := by
  rw [away_of_nonneg h1]
  exact Int.floor_nonneg.2 (by linarith)

theorem away_mono {p q : ℚ} (h1 : p ≤ q) : away p ≤ away q := by
  have hpos : ∀ {p q : ℚ}, 0 ≤ p → p ≤ q → away p ≤ away q := by
    intro p q hp hpq
    rw [away_of_nonneg hp, away_of_nonneg (hp.trans hpq)]
    exact Int.floor_le_floor (by linarith)
  rcases le_or_gt 0 p with hp | hp
  · exact hpos hp h1
  · have h2 : away p = -away (-p) := by rw [away_neg, neg_neg]
    rcases le_or_gt 0 q with hq | hq
    · have h3 := away_nonneg (q := -p) (by linarith)
      have h4 := away_nonneg hq
      omega
    · have h3 : away (-q) ≤ away (-p) := hpos (by linarith) (by linarith)
      rw [away_neg q] at h3
      omega

/-- What is computed from the magnitude, with the sign bit of `x`. -/
theorem oddly_of_signBit {f : ℚ → ℤ} (x : Float32) (h1 : f 0 = 0) :
    oddly f (val x) = if signBit x then -f |val x| else f |val x| := by
  unfold oddly
  rcases lt_trichotomy (val x) 0 with h | h | h
  · rw [if_neg (not_le.2 h), if_pos (signBit_of_neg h), abs_of_neg h]
  · rw [if_pos h.ge, h, abs_zero, h1, neg_zero, ite_self]
  · rw [if_pos h.le, signBit_of_pos h, abs_of_pos h]
    rfl

theorem finite_oddly {f : ℚ → ℤ} {r x : Float32} (h1 : f 0 = 0) (h2 : ∀ q, 0 ≤ q → 0 ≤ f q)
    (h3 : r.isFinite) (h4 : val r = f |val x|) :
    (copySign r x).isFinite ∧ val (copySign r x) = oddly f (val x) := by
  obtain ⟨h5, h6⟩ := finite_copySign (y := x) h3
  have h7 : (0 : ℚ) ≤ f |val x| := by exact_mod_cast h2 _ (abs_nonneg (val x))
  refine ⟨h5, h6.trans ?_⟩
  rw [oddly_of_signBit x h1, h4, abs_of_nonneg h7]
  split
  · push_cast
    rfl
  · rfl

theorem finite_trunc {x : Float32} (hx : x.isFinite) :
    (trunc x).isFinite ∧ val (trunc x) = truncated (val x) := by
  obtain ⟨h1, h2⟩ := finite_abs hx
  obtain ⟨h3, h4⟩ := finite_literal_limit
  unfold trunc
  split
  · next h =>
    rw [lt_iff h1 h3, h2, h4] at h
    have h5 : (x.abs.toUInt32.toNat : ℤ) = ⌊|val x|⌋ := by
      rw [toNat_toUInt32 h1 (by rw [h2]; positivity) (by rw [h2]; linarith), h2]
    have h6 : ⌊|val x|⌋ < 2 ^ 23 := by
      rw [Int.floor_lt]
      exact_mod_cast h
    obtain ⟨h7, h8⟩ := (rounds_toFloat32 x.abs.toUInt32).whole (by rw [Nat.abs_cast]; omega)
    exact finite_oddly Int.floor_zero (fun q hq => Int.floor_nonneg.2 hq) h7 (by rw [h8, h5])
  · next h =>
    rw [lt_iff h1 h3, h2, h4, not_lt] at h
    obtain ⟨n, hn⟩ := exists_whole_of_le hx h
    exact ⟨hx, by rw [hn, truncated_intCast]⟩

theorem finite_succ {t : Float32} {n : ℤ} (h1 : t.isFinite) (h2 : val t = n) (h3 : |n| < 2 ^ 24) :
    (t + 1.0).isFinite ∧ val (t + 1.0) = (n + 1 : ℤ) := by
  obtain ⟨h4, h5⟩ := finite_literal_one
  have h6 := rounds_add h1 h4
  rw [h2, h5, ← Int.cast_one, ← Int.cast_add] at h6
  exact h6.whole (by rw [abs_lt] at h3; rw [abs_le]; omega)

theorem finite_pred {t : Float32} {n : ℤ} (h1 : t.isFinite) (h2 : val t = n) (h3 : |n| < 2 ^ 24) :
    (t - 1.0).isFinite ∧ val (t - 1.0) = (n - 1 : ℤ) := by
  obtain ⟨h4, h5⟩ := finite_literal_one
  have h6 := rounds_sub h1 h4
  rw [h2, h5, ← Int.cast_one, ← Int.cast_sub] at h6
  exact h6.whole (by rw [abs_lt] at h3; rw [abs_le]; omega)

theorem abs_truncated_lt {x : Float32} (hx : x.isFinite) (h1 : val x ≠ truncated (val x)) :
    |truncated (val x)| < 2 ^ 24 := by
  have h2 : |val x| < 2 ^ 23 := by
    by_contra hc
    obtain ⟨n, hn⟩ := exists_whole_of_le hx (not_lt.1 hc)
    rw [hn, truncated_intCast] at h1
    exact h1 rfl
  rw [abs_lt] at h2 ⊢
  rcases le_or_gt 0 (val x) with h | h
  · have h3 : 0 ≤ ⌊val x⌋ := Int.floor_nonneg.2 h
    have h4 : ⌊val x⌋ < 2 ^ 23 := Int.floor_lt.2 (by exact_mod_cast h2.2)
    rw [truncated_of_nonneg h]
    omega
  · have h3 : ⌈val x⌉ ≤ 0 := Int.ceil_nonpos.2 h.le
    have h4 : -2 ^ 23 < ⌈val x⌉ := Int.lt_ceil.2 (by exact_mod_cast h2.1)
    rw [truncated_of_neg h]
    omega

theorem finite_floor {x : Float32} (hx : x.isFinite) :
    (floor x).isFinite ∧ val (floor x) = ⌊val x⌋ := by
  obtain ⟨h1, h2⟩ := finite_trunc hx
  unfold floor
  simp only []
  split
  · next h =>
    rw [lt_iff hx h1, h2] at h
    obtain ⟨h3, h4⟩ := finite_pred h1 h2 (abs_truncated_lt hx h.ne)
    refine ⟨h3, h4.trans ?_⟩
    have h5 : val x < 0 := by
      by_contra hc
      rw [truncated_of_nonneg (not_lt.1 hc)] at h
      exact absurd h (Int.floor_le _).not_gt
    rw [truncated_of_neg h5] at h ⊢
    have h6 : ⌊val x⌋ = ⌈val x⌉ - 1 := by
      have h7 := Int.ceil_lt_add_one (val x)
      rw [Int.floor_eq_iff]
      push_cast
      constructor <;> linarith
    rw [h6]
  · next h =>
    rw [lt_iff hx h1, h2, not_lt] at h
    refine ⟨h1, h2.trans ?_⟩
    rcases le_or_gt 0 (val x) with h3 | h3
    · rw [truncated_of_nonneg h3]
    · rw [truncated_of_neg h3] at h ⊢
      have h4 : val x = ⌈val x⌉ := le_antisymm (Int.le_ceil _) h
      rw [h4, Int.floor_intCast, Int.ceil_intCast]

theorem finite_ceil {x : Float32} (hx : x.isFinite) :
    (ceil x).isFinite ∧ val (ceil x) = ⌈val x⌉ := by
  obtain ⟨h1, h2⟩ := finite_trunc hx
  unfold ceil
  simp only []
  split
  · next h =>
    rw [lt_iff h1 hx, h2] at h
    obtain ⟨h3, h4⟩ := finite_succ h1 h2 (abs_truncated_lt hx h.ne')
    refine ⟨h3, h4.trans ?_⟩
    have h5 : 0 ≤ val x := by
      by_contra hc
      rw [truncated_of_neg (not_le.1 hc)] at h
      exact absurd h (Int.le_ceil _).not_gt
    rw [truncated_of_nonneg h5] at h ⊢
    have h6 : ⌈val x⌉ = ⌊val x⌋ + 1 := by
      have h7 := Int.lt_floor_add_one (val x)
      rw [Int.ceil_eq_iff]
      push_cast
      constructor <;> linarith
    rw [h6]
  · next h =>
    rw [lt_iff h1 hx, h2, not_lt] at h
    refine ⟨h1, h2.trans ?_⟩
    rcases le_or_gt 0 (val x) with h3 | h3
    · rw [truncated_of_nonneg h3] at h ⊢
      have h4 : val x = ⌊val x⌋ := le_antisymm h (Int.floor_le _)
      rw [h4, Int.ceil_intCast, Int.floor_intCast]
    · rw [truncated_of_neg h3]

theorem rnd_fract {x : Float32} (hx : x.isFinite) (h1 : 0 ≤ val x) :
    rnd (Int.fract (val x)) = Int.fract (val x) := by
  obtain ⟨m, e, h2, h3, h4⟩ := exists_bits (unpacked_canonical hx).1
  change val x = m * 2 ^ e at h4
  have hpos : (0 : ℚ) < 2 ^ e := by positivity
  rcases le_or_gt 0 e with he | he
  · have h5 : val x = ((m * 2 ^ e.toNat : ℤ) : ℚ) := by
      rw [h4, show (2 : ℚ) ^ e = 2 ^ e.toNat by rw [← zpow_natCast, Int.toNat_of_nonneg he]]
      push_cast
      rfl
    rw [h5, Int.fract_intCast, rnd_zero]
  · -- whole numbers are multiples of `2 ^ e`
    have h5 : Int.fract (val x) = ((m - ⌊val x⌋ * 2 ^ (-e).toNat : ℤ) : ℚ) * 2 ^ e := by
      have h6 : (2 : ℚ) ^ (-e).toNat * 2 ^ e = 1 := by
        rw [two_pow_mul, Int.toNat_of_nonneg (by omega), neg_add_cancel, zpow_zero]
      rw [Int.fract]
      push_cast
      rw [sub_mul, mul_assoc, h6, mul_one, ← h4]
    have h6 : Int.fract (val x) ≤ val x := by
      have h7 : (0 : ℚ) ≤ ⌊val x⌋ := by exact_mod_cast Int.floor_nonneg.2 h1
      rw [Int.fract]
      linarith
    have h7 := Int.fract_nonneg (val x)
    rw [h5] at h6 h7 ⊢
    replace h6 := h6.trans_eq h4
    have h8 : m - ⌊val x⌋ * 2 ^ (-e).toNat ≤ m := by
      exact_mod_cast le_of_mul_le_mul_right h6 hpos
    have h9 : 0 ≤ m - ⌊val x⌋ * 2 ^ (-e).toNat := by
      exact_mod_cast nonneg_of_mul_nonneg_left h7 hpos
    refine rnd_of_bits ?_ h3
    rw [abs_lt] at h2 ⊢
    omega

theorem finite_round {x : Float32} (hx : x.isFinite) :
    (round x).isFinite ∧ val (round x) = away (val x) := by
  obtain ⟨h1, h2⟩ := finite_abs hx
  have hpos : 0 ≤ val x.abs := by rw [h2]; positivity
  obtain ⟨h3, h4⟩ := finite_trunc h1
  obtain ⟨h5, h6⟩ := finite_literal_half
  have hfract : val x.abs - val (trunc x.abs) = Int.fract (val x.abs) := by
    rw [h4, truncated_of_nonneg hpos]
    rfl
  have hsmall : |Int.fract (val x.abs)| < 2 ^ 128 := by
    rw [Int.abs_fract]
    exact (Int.fract_lt_one _).trans (by norm_num)
  obtain ⟨h7, h8⟩ := (rounds_sub h1 h3).exact (by rw [hfract]; exact rnd_fract h1 hpos)
    (by rw [hfract]; exact hsmall)
  rw [hfract] at h8
  have hfloor := Int.floor_add_fract (val x.abs)
  suffices hup : (if 0.5 ≤ x.abs - trunc x.abs then trunc x.abs + 1.0 else trunc x.abs).isFinite
      ∧ val (if 0.5 ≤ x.abs - trunc x.abs then trunc x.abs + 1.0 else trunc x.abs)
        = ⌊|val x| + 1 / 2⌋ from
    finite_oddly (f := fun p => ⌊p + 1 / 2⌋) (by norm_num)
      (fun q hq => Int.floor_nonneg.2 (by positivity)) hup.1 hup.2
  rw [← h2]
  split
  · next h =>
    rw [le_iff h5 h7, h6, h8] at h
    have hne : val x.abs ≠ truncated (val x.abs) := by
      intro hc
      rw [hc, Int.fract_intCast] at h
      norm_num at h
    obtain ⟨h9, h10⟩ := finite_succ h3 h4 (abs_truncated_lt h1 hne)
    refine ⟨h9, h10.trans ?_⟩
    have h11 := Int.fract_lt_one (val x.abs)
    rw [truncated_of_nonneg hpos, Int.cast_inj, eq_comm, Int.floor_eq_iff]
    push_cast
    constructor <;> linarith
  · next h =>
    rw [le_iff h5 h7, h6, h8, not_le] at h
    refine ⟨h3, h4.trans ?_⟩
    have h11 := Int.fract_nonneg (val x.abs)
    rw [truncated_of_nonneg hpos, Int.cast_inj, eq_comm, Int.floor_eq_iff]
    constructor <;> linarith

/-! ## whole numbers and ranges -/

theorem toInt_eq {x : Float32} (hx : x.isFinite) (h1 : |val x| < 2 ^ 32) :
    toInt x = truncated (val x) := by
  obtain ⟨h2, h3⟩ := finite_abs hx
  have h4 : (x.abs.toUInt32.toNat : ℤ) = ⌊|val x|⌋ := by
    rw [toNat_toUInt32 h2 (by rw [h3]; positivity) (by rw [h3]; exact h1), h3]
  rw [truncated, oddly_of_signBit (f := fun p => ⌊p⌋) x Int.floor_zero, toInt, h4]

theorem finite_clamp {lo hi x : Float32} (h1 : lo.isFinite) (h2 : hi.isFinite) (h3 : x.isFinite)
    (h4 : val lo ≤ val hi) :
    (Scalar.clamp lo hi x).isFinite
      ∧ val (Scalar.clamp lo hi x) = max (val lo) (min (val hi) (val x)) := by
  have h5 : Scalar.lt x lo = true ↔ val x < val lo := lt_iff h3 h1
  have h6 : Scalar.lt hi x = true ↔ val hi < val x := lt_iff h2 h3
  unfold Scalar.clamp
  split
  · next h =>
    rw [h5] at h
    refine ⟨h1, ?_⟩
    rw [min_eq_right (h.le.trans h4), max_eq_left h.le]
  · next h =>
    rw [h5, not_lt] at h
    split
    · next h7 =>
      rw [h6] at h7
      refine ⟨h2, ?_⟩
      rw [min_eq_left h7.le, max_eq_right h4]
    · next h7 =>
      rw [h6, not_lt] at h7
      refine ⟨h3, ?_⟩
      rw [min_eq_right h7, max_eq_right h]

theorem clamp_of_between {lo hi x : Float32} (h1 : lo.isFinite) (h2 : hi.isFinite) (h3 : x.isFinite)
    (h4 : val lo ≤ val x) (h5 : val x ≤ val hi) : Scalar.clamp lo hi x = x := by
  have h6 : ¬ Scalar.lt x lo = true := fun h => absurd ((lt_iff h3 h1).1 h) h4.not_gt
  have h7 : ¬ Scalar.lt hi x = true := fun h => absurd ((lt_iff h2 h3).1 h) h5.not_gt
  rw [Scalar.clamp, if_neg h6, if_neg h7]

end Binary32
end HueSaturation
