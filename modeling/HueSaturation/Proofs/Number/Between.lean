import HueSaturation.Proofs.Number.Turns

/-!
# Rounding keeps the order

Of two numbers the larger one is not rounded to less. So what lies between two floats is rounded to
something between them, and a formula whose exact value stays within floats stays within them
however often it is rounded on the way.

* `rnd_mono`             rounding keeps the order;
* `Rounds.between`       a result is between the floats that the exact one is between;
* `abs_val_le`           how large a float is at most;
* `unit_mono`            cutting down to `[0, 1]` keeps the order of all floats;
* `inUnit_mul`, `inUnit_interpolate`   products and interpolations stay in `[0, 1]`;
* `val_mul_mono`, `val_one_sub_anti`   products and what is left to one keep it or turn it around.
-/

namespace HueSaturation
namespace Binary32

open Float.Model
open Float.Model.UnpackedFloat

variable {x y b t : Float32}

/-! ## order -/

theorem succ_le_nearest {q : ℚ} {k : ℤ} (h1 : k + 1 / 2 < q) : k + 1 ≤ nearest q := by
  rcases lt_or_ge q (k + 1) with h | h
  · rw [nearest_of_gt h1 h]
  · exact le_nearest (by push_cast; exact h)

theorem nearest_mono {p q : ℚ} (h1 : p ≤ q) : nearest p ≤ nearest q := by
  obtain ⟨k, ⟨h2, h3⟩ | h2 | ⟨h2, h3⟩⟩ := exists_unit p
  · rw [nearest_of_lt h2 h3]
    exact le_nearest (h2.trans h1)
  · rcases h1.eq_or_lt with rfl | h
    · exact le_rfl
    · have h4 : k + 1 ≤ nearest q := succ_le_nearest (h2 ▸ h)
      rw [nearest_of_eq h2]
      omega
  · rw [nearest_of_gt h2 h3]
    exact succ_le_nearest (h2.trans_le h1)

theorem spacing_of_pos {q : ℚ} (hq : 0 < q) : spacing q = max (Int.log 2 q - 23) (-149) := by
  rw [spacing, abs_of_pos hq]

theorem rnd_mono_of_pos {p q : ℚ} (hp : 0 < p) (h1 : p ≤ q) : rnd p ≤ rnd q := by
  have hq : 0 < q := hp.trans_le h1
  have hlog : Int.log 2 p ≤ Int.log 2 q := Int.log_mono_right hp h1
  rcases eq_or_ne (spacing p) (spacing q) with h | h
  · have h2 : nearest (p / 2 ^ spacing q) ≤ nearest (q / 2 ^ spacing q) :=
      nearest_mono (by gcongr)
    have h3 : (nearest (p / 2 ^ spacing q) : ℚ) ≤ nearest (q / 2 ^ spacing q) := by
      exact_mod_cast h2
    rw [rnd, rnd, h]
    gcongr
  · -- then a power of two lies between them
    rw [spacing_of_pos hp, spacing_of_pos hq] at h
    have hlt : Int.log 2 p < Int.log 2 q := by omega
    have h2 : p < 2 ^ Int.log 2 q := (Int.lt_zpow_iff_log_lt (by norm_num) hp).2 hlt
    have h3 : 2 ^ Int.log 2 q ≤ q := Int.zpow_log_le_self (by norm_num) hq
    exact (rnd_le h2.le (by omega)).trans (le_rnd h3 (by omega))

theorem rnd_mono {p q : ℚ} (h1 : p ≤ q) : rnd p ≤ rnd q := by
  rcases lt_or_ge 0 p with hp | hp
  · exact rnd_mono_of_pos hp h1
  rcases lt_or_ge q 0 with hq | hq
  · have h2 := rnd_mono_of_pos (neg_pos.2 hq) (neg_le_neg h1)
    rw [rnd_neg, rnd_neg] at h2
    exact neg_le_neg_iff.1 h2
  · have h2 := rnd_nonneg (neg_nonneg.2 hp)
    rw [rnd_neg] at h2
    exact (neg_nonneg.1 h2).trans (rnd_nonneg hq)

/-- What is rounded from between two floats is between them. -/
theorem Rounds.between {lo hi : Float32} {q : ℚ} (h1 : Rounds x q) (hlo : lo.isFinite)
    (hhi : hi.isFinite) (h2 : val lo ≤ q) (h3 : q ≤ val hi) :
    x.isFinite ∧ val lo ≤ val x ∧ val x ≤ val hi := by
  have h4 := rnd_mono h2
  have h5 := rnd_mono h3
  rw [rnd_val hlo] at h4
  rw [rnd_val hhi] at h5
  obtain ⟨h6, -⟩ := abs_lt.1 (unpacked_canonical hlo).2
  obtain ⟨-, h7⟩ := abs_lt.1 (unpacked_canonical hhi).2
  obtain ⟨h8, h9⟩ := h1.finite (abs_lt.2 ⟨by linarith, by linarith⟩)
  exact ⟨h8, by rw [h9]; exact h4, by rw [h9]; exact h5⟩

/-- The largest float leaves half a last place below the first power of two beyond the floats. -/
theorem abs_val_le (hx : x.isFinite) : |val x| ≤ 2 ^ 128 - 2 ^ 104 := by
  rcases le_or_gt (2 ^ (127 : ℤ)) |val x| with h | h
  · obtain ⟨n, hn⟩ := exists_multiple_of_le hx h
    have h1 : |val x| < 2 ^ 128 := (unpacked_canonical hx).2
    have h2 : |val x| = ((|n| : ℤ) : ℚ) * 2 ^ 104 := by
      rw [hn, abs_mul, Int.cast_abs, abs_of_pos (by positivity : (0 : ℚ) < 2 ^ (127 - 23 : ℤ))]
      norm_num
    rw [h2] at h1 ⊢
    have h3 : |n| < 2 ^ 24 := by
      have h4 : ((|n| : ℤ) : ℚ) < 2 ^ 24 := by linarith
      exact_mod_cast h4
    have h4 : ((|n| : ℤ) : ℚ) ≤ 2 ^ 24 - 1 := by exact_mod_cast Int.le_sub_one_of_lt h3
    linarith
  · exact h.le.trans (by norm_num)

/-- What is at most one larger than a float is not rounded to infinity. -/
theorem Rounds.finite_of_le {q : ℚ} (h1 : Rounds x q) (hy : y.isFinite) (h2 : |q| ≤ |val y| + 1) :
    x.isFinite := by
  have h3 : |q| ≤ 2 ^ 128 - 2 ^ 104 + 1 := by linarith [abs_val_le hy]
  have h4 : |rnd q - q| ≤ 2 ^ (103 : ℤ) :=
    abs_rnd_sub_le (k := 128) (h3.trans_lt (by norm_num)) (by norm_num)
  refine (h1.finite ?_).1
  calc |rnd q| ≤ |rnd q - q| + |q| := by linarith [abs_sub_abs_le_abs_sub (rnd q) q]
    _ ≤ 2 ^ (103 : ℤ) + (2 ^ 128 - 2 ^ 104 + 1) := add_le_add h4 h3
    _ < 2 ^ 128 := by norm_num

theorem unpacked_pack_of_large (s : Sign) {m : ℕ} {e : ℤ} (hm : 0 < m) (h1 : 104 < e) :
    unpacked (.ofModel (.pack (.finite s m e hm))) = .infinity s := by
  have hbias : (Format.binary32.exponentBias : ℤ) = 127 := rfl
  have hbits : (Format.binary32.mantissaBitsWithoutImplicit : ℤ) = 23 := rfl
  have hexp : 2 ^ Format.binary32.exponentBits = 256 := rfl
  have hpack : UnpackedFloat.pack Format.binary32 (.finite s m e hm)
      = UnpackedFloat.packedInfinity Format.binary32 s := by
    unfold UnpackedFloat.pack
    simp only [hbias, hbits, hexp]
    exact if_pos (by omega)
  show UnpackedFloat.unpack Format.binary32 (UnpackedFloat.pack Format.binary32 _) = _
  rw [hpack]
  cases s with
  | positive => rfl
  | negative => rfl

/-- A result that is finite has the rounded value: only infinities are cut off. -/
theorem Rounds.val_of_finite {q : ℚ} (h1 : Rounds x q) (hx : x.isFinite) : val x = rnd q := by
  obtain ⟨u, h2, h3, rfl⟩ := h1
  have h4 : |worth u| < 2 ^ 128 := by
    cases h2 with
    | zero s => norm_num [worth]
    | finite s m e hm h5 h6 h7 =>
      rw [abs_worth_lt_iff s m e hm h5 h7]
      by_contra hc
      have h8 : (unpacked (.ofModel (.pack (.finite s m e hm)))).isFinite = true := hx
      rw [unpacked_pack_of_large s hm (not_le.1 hc)] at h8
      exact Bool.noConfusion h8
  have h5 : unpacked (.ofModel (.pack u)) = u := unpacked_pack h2 h4
  rw [val, h5, h3]

theorem Rounds.between_whole {m n : ℤ} {q : ℚ} (h1 : Rounds x q) (h2 : m ≤ q) (h3 : q ≤ n)
    (hm : |m| < 2 ^ 23) (hn : |n| < 2 ^ 23) : x.isFinite ∧ m ≤ val x ∧ val x ≤ n := by
  obtain ⟨h4, h5⟩ := finite_ofInt hm
  obtain ⟨h6, h7⟩ := finite_ofInt hn
  have h8 := h1.between h4 h6 (h5 ▸ h2) (h7 ▸ h3)
  rw [h5, h7] at h8
  exact h8

/-! ## the unit range -/

theorem within_of_inUnit (hx : InUnit x) : Scalar.within 0.0 1.0 x := by
  have h1 : (0.0 : Float32) ≤ x := (le_iff rfl hx.1).2 (by rw [val_zero]; exact hx.2.1)
  have h2 : x ≤ (1.0 : Float32) := (le_iff hx.1 rfl).2 (by rw [val_one]; exact hx.2.2)
  exact Bool.and_eq_true_iff.2 ⟨h1, h2⟩

theorem within_iff_inUnit : Scalar.within 0.0 1.0 x = true ↔ InUnit x :=
  ⟨inUnit_of_within, within_of_inUnit⟩

theorem unit_of_one_le (h : (1.0 : Float32) ≤ x) : Scalar.unit x = 1.0 := by
  by_cases hx : x.isFinite
  · have h1 := (le_iff finite_literal_one.1 hx).1 h
    obtain ⟨h2, h3⟩ := val_unit hx
    rw [val_one] at h1
    refine eq_of_val h2 finite_literal_one.1 ?_ ?_
    · rw [h3, val_one, min_eq_left h1, max_eq_right zero_le_one]
    · rw [h3, min_eq_left h1, max_eq_right zero_le_one]
      exact one_ne_zero
  · rcases special_cases hx with rfl | rfl | rfl
    · exact absurd h (by decide +kernel)
    · decide +kernel
    · exact absurd h (by decide +kernel)

/-- Cutting down to `[0, 1]` keeps the order, infinities included. -/
theorem unit_mono (h : x ≤ y) : val (Scalar.unit x) ≤ val (Scalar.unit y) := by
  obtain ⟨-, hx0, hx1⟩ := inUnit_unit x
  obtain ⟨-, hy0, hy1⟩ := inUnit_unit y
  by_cases hx : x.isFinite
  · by_cases hy : y.isFinite
    · have h1 := (le_iff hx hy).1 h
      rw [(val_unit hx).2, (val_unit hy).2]
      gcongr
    · have h1 : Scalar.unit y = 1.0 := by
        rw [eq_infinity_of_le hx hy h]
        decide +kernel
      rw [h1, val_one]
      exact hx1
  · rcases special_cases hx with rfl | rfl | rfl
    · have h1 : Scalar.unit (0.0 / 0.0 : Float32) = 0.0 := by decide +kernel
      rw [h1]
      exact hy0
    · -- nothing finite is above infinity
      have hy : ¬ y.isFinite := fun hy =>
        absurd (eq_neg_infinity_of_le hx hy h) (by decide +kernel)
      have h1 : Scalar.unit y = 1.0 := by
        rcases special_cases hy with rfl | rfl | rfl
        · exact absurd h (by decide +kernel)
        · decide +kernel
        · exact absurd h (by decide +kernel)
      rw [h1, val_one]
      exact hx1
    · have h1 : Scalar.unit (-1.0 / 0.0 : Float32) = 0.0 := by decide +kernel
      rw [h1]
      exact hy0

theorem inUnit_mul (hx : InUnit x) (hy : InUnit y) : InUnit (x * y) :=
  inUnit_of_rounds (rounds_mul hx.1 hy.1) (mul_nonneg hx.2.1 hy.2.1)
    (mul_le_one₀ hx.2.2 hy.2.1 hy.2.2)

theorem val_mul_le_left (hx : InUnit x) (hy : InUnit y) : val (x * y) ≤ val x :=
  ((rounds_mul hx.1 hy.1).between rfl hx.1 (by rw [val_zero]; exact mul_nonneg hx.2.1 hy.2.1)
    (mul_le_of_le_one_right hx.2.1 hy.2.2)).2.2

theorem val_mul_le_right (hx : InUnit x) (hy : InUnit y) : val (x * y) ≤ val y :=
  ((rounds_mul hx.1 hy.1).between rfl hy.1 (by rw [val_zero]; exact mul_nonneg hx.2.1 hy.2.1)
    (mul_le_of_le_one_left hy.2.1 hx.2.2)).2.2

theorem val_half : val 0.5 = 1 / 2 :=
  finite_literal_half.2

/-- What is left to one of a number from a half on is at most a half. -/
theorem val_one_sub_le_half (hx : InUnit x) (h : 1 / 2 ≤ val x) : val (1.0 - x) ≤ 1 / 2 := by
  have h2 := ((rounds_one_sub hx.1).between inUnit_zero.1 finite_literal_half.1
    (by rw [val_zero]; linarith [hx.2.2]) (by rw [val_half]; linarith)).2.2
  rw [val_half] at h2
  exact h2

/-- A number in `[0, 1]` more does not lead out of the floats. -/
theorem finite_inUnit_add (hx : InUnit x) (hy : y.isFinite) : (x + y).isFinite := by
  have h1 : |val x| ≤ 1 := by rw [abs_of_nonneg hx.2.1]; exact hx.2.2
  exact (rounds_add hx.1 hy).finite_of_le hy ((abs_add_le _ _).trans (by linarith))

theorem inUnit_abs_sub (hx : InUnit x) (hy : InUnit y) : InUnit (x - y).abs := by
  obtain ⟨h1, h2, h3⟩ := (rounds_sub hx.1 hy.1).within (k := 0)
    (by rw [zpow_zero, abs_le]; constructor <;> linarith [hx.2.1, hx.2.2, hy.2.1, hy.2.2])
    (by norm_num) (by norm_num)
  obtain ⟨h4, h5⟩ := finite_abs h1
  rw [zpow_zero] at h3
  exact ⟨h4, by rw [h5]; exact abs_nonneg _, by rw [h5]; exact h3⟩

/-- Up to half a last place more than one is rounded to one. -/
theorem rnd_le_one {q : ℚ} (h1 : q ≤ 1 + 2 ^ (-24 : ℤ)) : rnd q ≤ 1 := by
  have hlog : Int.log 2 |(1 : ℚ) + 2 ^ (-24 : ℤ)| = 0 := by
    rw [abs_of_pos (by positivity)]
    exact log_eq (by norm_num) (by norm_num)
  have hspacing : spacing (1 + 2 ^ (-24 : ℤ)) = -23 := by
    rw [spacing, hlog]
    norm_num
  have hnearest : nearest ((1 + 2 ^ (-24 : ℤ)) / 2 ^ (-23 : ℤ)) = 8388608 := by
    rw [nearest_of_eq (k := 8388608) (by norm_num)]
    norm_num
  have hrnd : rnd (1 + 2 ^ (-24 : ℤ)) = 1 := by
    rw [rnd, hspacing, hnearest]
    norm_num
  exact (rnd_mono h1).trans_eq hrnd

/-- Less than one is rounded up to one from half a last place on. -/
theorem rnd_eq_one_iff {q : ℚ} (h1 : 0 ≤ q) (h2 : q < 1) : rnd q = 1 ↔ 1 - 2 ^ (-25 : ℤ) ≤ q := by
  constructor
  · intro h
    have h3 : |q| < 2 ^ (0 : ℤ) := by rw [abs_of_nonneg h1, zpow_zero]; exact h2
    have h4 := abs_rnd_sub_le h3 (by norm_num)
    rw [h, zero_sub] at h4
    linarith [(abs_le.1 h4).2]
  · intro h
    have hlog : Int.log 2 |(1 : ℚ) - 2 ^ (-25 : ℤ)| = -1 := by
      rw [abs_of_pos (by norm_num)]
      exact log_eq (by norm_num) (by norm_num)
    have hspacing : spacing (1 - 2 ^ (-25 : ℤ)) = -24 := by
      rw [spacing, hlog]
      norm_num
    have hnearest : nearest ((1 - 2 ^ (-25 : ℤ)) / 2 ^ (-24 : ℤ)) = 16777216 := by
      rw [nearest_of_eq (k := 16777215) (by norm_num)]
      norm_num
    have hrnd : rnd (1 - 2 ^ (-25 : ℤ)) = 1 := by
      rw [rnd, hspacing, hnearest]
      norm_num
    refine le_antisymm (rnd_le_one (h2.le.trans (by norm_num))) ?_
    exact hrnd.symm.trans_le (rnd_mono h)

/-- What is left to one after rounding completes a number to one and half a last place at most. -/
theorem val_add_val_one_sub_le (hb : InUnit b) : val b + val (1.0 - b) ≤ 1 + 2 ^ (-24 : ℤ) := by
  have h2 : |1 - val b| ≤ 2 ^ (0 : ℤ) := by
    rw [zpow_zero, abs_le]
    constructor <;> linarith [hb.2.1, hb.2.2]
  have h3 : |rnd (1 - val b) - (1 - val b)| ≤ 2 ^ (-24 : ℤ) :=
    abs_rnd_sub_le (k := 1) (h2.trans_lt (by norm_num)) (by norm_num)
  have h4 := ((rounds_one_sub hb.1).within h2 (by norm_num) (by norm_num)).2.1
  rw [h4]
  linarith [(abs_le.1 h3).2]

theorem Rounds.mono {p q : ℚ} (h1 : Rounds x p) (h2 : Rounds y q) (hx : |p| ≤ 1) (hy : |q| ≤ 1)
    (h3 : p ≤ q) : val x ≤ val y := by
  have h4 := (h1.within (k := 0) (by rw [zpow_zero]; exact hx) (by norm_num) (by norm_num)).2.1
  have h5 := (h2.within (k := 0) (by rw [zpow_zero]; exact hy) (by norm_num) (by norm_num)).2.1
  rw [h4, h5]
  exact rnd_mono h3

theorem val_one_sub_anti (hx : InUnit x) (hy : InUnit y) (h : val x ≤ val y) :
    val (1.0 - y) ≤ val (1.0 - x) :=
  (rounds_one_sub hy.1).mono (rounds_one_sub hx.1)
    (abs_le.2 ⟨by linarith [hy.2.2], by linarith [hy.2.1]⟩)
    (abs_le.2 ⟨by linarith [hx.2.2], by linarith [hx.2.1]⟩) (by linarith)

theorem val_mul_mono {u v : Float32} (hx : InUnit x) (hy : InUnit y) (hu : InUnit u) (hv : InUnit v)
    (h1 : val x ≤ val u) (h2 : val y ≤ val v) : val (x * y) ≤ val (u * v) := by
  have hone : ∀ {p q : ℚ}, 0 ≤ p → p ≤ 1 → 0 ≤ q → q ≤ 1 → |p * q| ≤ 1 := by
    intro p q hp0 hp1 hq0 hq1
    rw [abs_of_nonneg (mul_nonneg hp0 hq0)]
    exact mul_le_one₀ hp1 hq0 hq1
  exact (rounds_mul hx.1 hy.1).mono (rounds_mul hu.1 hv.1) (hone hx.2.1 hx.2.2 hy.2.1 hy.2.2)
    (hone hu.2.1 hu.2.2 hv.2.1 hv.2.2) (mul_le_mul h1 h2 hy.2.1 hu.2.1)

/-- On the way from `b` to `x`, both in `[0, 1]`, the rounded interpolation does not leave it. -/
theorem inUnit_interpolate (hb : InUnit b) (hx : InUnit x) (ht : InUnit t) :
    InUnit (b + t * (x - b)) := by
  obtain ⟨hbf, hb0, hb1⟩ := hb
  obtain ⟨hxf, hx0, hx1⟩ := hx
  obtain ⟨htf, ht0, ht1⟩ := ht
  obtain ⟨hef, he0, he1⟩ := inUnit_one_sub ⟨hbf, hb0, hb1⟩
  obtain ⟨hnf, hn⟩ := finite_neg hbf
  have hdiff := rounds_sub hxf hbf
  -- every float of the way lies between `-b` and what `1 - b` is rounded to
  obtain ⟨hdf, hd0, -⟩ := hdiff.between hnf rfl (by linarith) (by rw [val_one]; linarith)
  have hd1 : val (x - b) ≤ val (1.0 - b) :=
    hdiff.mono (rounds_one_sub hbf) (abs_le.2 ⟨by linarith, by linarith⟩)
      (abs_le.2 ⟨by linarith, by linarith⟩) (by linarith)
  obtain ⟨hpf, hp0, hp1⟩ := (rounds_mul htf hdf).between hnf hef (by nlinarith) (by nlinarith)
  have hsum : val b + val (t * (x - b)) ≤ 1 + 2 ^ (-24 : ℤ) :=
    (add_le_add_right hp1 _).trans (val_add_val_one_sub_le ⟨hbf, hb0, hb1⟩)
  have hnonneg : 0 ≤ val b + val (t * (x - b)) := by linarith
  obtain ⟨hsf, hs, -⟩ := (rounds_add hbf hpf).within (k := 1)
    (by rw [abs_of_nonneg hnonneg]; exact hsum.trans (by norm_num)) (by norm_num) (by norm_num)
  exact ⟨hsf, by rw [hs]; exact rnd_nonneg hnonneg, by rw [hs]; exact rnd_le_one hsum⟩

end Binary32
end HueSaturation
