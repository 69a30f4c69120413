import HueSaturation.Proofs.Number.Nearest
import HueSaturation.Proofs.Number.Value

/-!
# The arithmetic rounds

A sum, a difference or a product of finite floats is the float nearest to the exact one. The
machine finds it with a mantissa of 24 bits and two more: the next bit, and whether anything
follows it.

* `Holds`         what a mantissa and its two bits say of a number;
* `roundWithAccuracy_signed`   the rounding of the machine is `rnd`;
* `Rounds`        a float is the one nearest to a number;
* `rounds_add`, `rounds_sub`, `rounds_mul`   the arithmetic gives nearest floats;
* `Rounds.exact`  a number of 24 bits within range comes out as it is;
* `finite_ofInt`, `toNat_toUInt32`   conversion from and to whole numbers.
-/

namespace HueSaturation
namespace Binary32

open Float.Model
open Float.Model.UnpackedFloat

/-! ## mantissas with two more bits -/

/-- The half that a set bit after the mantissa stands for. -/
def half (b : Bool) : ℚ :=
  if b then 1 / 2 else 0

/-- The mantissa and the two bits after it say where `q` lies. -/
structure Holds (em : ExtendedMantissa) (q : ℚ) : Prop where
  low : em.mantissa + half em.roundBit ≤ q
  high : q < em.mantissa + half em.roundBit + 1 / 2
  sticky : em.stickyBit = false ↔ q = em.mantissa + half em.roundBit

theorem half_false : half false = 0 := rfl

theorem half_true : half true = 1 / 2 := rfl

theorem half_nonneg (b : Bool) : 0 ≤ half b ∧ half b ≤ 1 / 2 := by
  cases b <;> norm_num [half]

theorem holds_exact (m : ℕ) : Holds (.ofMantissaAndAccuracy m .exact) m := by
  constructor <;> simp [ExtendedMantissa.ofMantissaAndAccuracy, half]

theorem Holds.shiftRightOne {em : ExtendedMantissa} {q : ℚ} (h1 : Holds em q) :
    Holds em.shiftRightOne (q / 2) := by
  have hm : (em.mantissa : ℚ) / 2 = (em.mantissa / 2 : ℕ) + half (em.mantissa % 2 != 0) := by
    have h2 : em.mantissa = 2 * (em.mantissa / 2) + em.mantissa % 2 := by omega
    have h3 : (em.mantissa : ℚ) = 2 * (em.mantissa / 2 : ℕ) + (em.mantissa % 2 : ℕ) := by
      exact_mod_cast h2
    rcases Nat.mod_two_eq_zero_or_one em.mantissa with h | h
    · rw [h3, h]; simp [half]
    · rw [h3, h]; simp [half]; ring
  obtain ⟨h2, h3⟩ := half_nonneg em.roundBit
  have h4 := h1.low
  have h5 := h1.high
  have h6 := h1.sticky
  refine ⟨?_, ?_, ?_⟩
  · show ((em.mantissa / 2 : ℕ) : ℚ) + half (em.mantissa % 2 != 0) ≤ q / 2
    linarith
  · show q / 2 < ((em.mantissa / 2 : ℕ) : ℚ) + half (em.mantissa % 2 != 0) + 1 / 2
    linarith
  · show (em.roundBit || em.stickyBit) = false
      ↔ q / 2 = ((em.mantissa / 2 : ℕ) : ℚ) + half (em.mantissa % 2 != 0)
    rw [← hm, Bool.or_eq_false_iff, h6]
    cases hb : em.roundBit with
    | false =>
      rw [half_false, add_zero]
      constructor
      · intro h
        linarith [h.2]
      · intro h
        exact ⟨rfl, by linarith⟩
    | true =>
      rw [hb, half_true] at h4
      constructor
      · intro h
        exact absurd h.1 (by decide)
      · intro h
        linarith

theorem Holds.shiftRight {em : ExtendedMantissa} {q : ℚ} (h1 : Holds em q) (k : ℕ) :
    Holds (em >>> k) (q / 2 ^ k) := by
  show Holds (k.repeat ExtendedMantissa.shiftRightOne em) _
  induction k with
  | zero => simpa [Nat.repeat] using h1
  | succ k ih =>
    have h2 := ih.shiftRightOne
    rw [div_div, ← pow_succ] at h2
    exact h2

theorem Holds.floor {em : ExtendedMantissa} {q : ℚ} (h1 : Holds em q) : ⌊q⌋ = em.mantissa := by
  obtain ⟨h2, h3⟩ := half_nonneg em.roundBit
  have h4 := h1.low
  have h5 := h1.high
  rw [Int.floor_eq_iff]
  push_cast
  constructor <;> linarith

theorem Holds.rounded {em : ExtendedMantissa} {q : ℚ} (h1 : Holds em q) :
    (em.roundedMantissa : ℤ) = nearest q := by
  obtain ⟨m, r, s⟩ := em
  obtain ⟨h2, h3, h4⟩ := h1
  cases r <;> cases s <;> simp [half] at h2 h3 h4
  · rw [h4, show (m : ℚ) = ((m : ℤ) : ℚ) from rfl, nearest_intCast]
    rfl
  · exact (nearest_of_lt h2 (by push_cast; linarith)).symm
  · rw [nearest_of_eq (k := m) (by push_cast; linarith)]
    rfl
  · have h5 : (m : ℚ) + 1 / 2 < q := lt_of_le_of_ne (by linarith) (fun h => h4 (by linarith))
    rw [nearest_of_gt (k := m) (by push_cast; linarith) (by push_cast; linarith)]
    rfl

/-! ## the rounding of the machine -/

theorem targetExponent_eq (m : ℕ) (e : ℤ) :
    Format.binary32.targetExponent (totalExponent m e) = max (m.log2 + e - 23) (-149) := by
  have h1 : Format.binary32.minExponent = -149 := by decide
  have h2 : (Format.binary32.mantissaBits : ℤ) = 24 := rfl
  rw [Format.targetExponent, totalExponent, h1, h2]
  congr 1
  omega

theorem spacing_eq {m : ℕ} {e : ℤ} {q : ℚ} (hq : 0 < q) (h1 : m ≤ q) (h2 : q < m + 1)
    (h3 : e ≤ max (m.log2 + e - 23) (-149)) :
    spacing (q * 2 ^ e) = max (m.log2 + e - 23) (-149) := by
  rw [spacing, abs_of_pos (by positivity)]
  rcases Nat.eq_zero_or_pos m with rfl | hm
  · -- less than the least float
    have hlog : Int.log 2 (q * 2 ^ e) < e := by
      refine (Int.lt_zpow_iff_log_lt (by norm_num) (by positivity)).1 ?_
      have h4 : q < 1 := by simpa using h2
      exact mul_lt_of_lt_one_left (by positivity) h4
    rw [Nat.log2_zero] at h3 ⊢
    push_cast at h3 ⊢
    omega
  · have hlow : (2 : ℚ) ^ m.log2 ≤ m := by exact_mod_cast Nat.log2_self_le hm.ne'
    have hhigh : (m : ℚ) + 1 ≤ 2 ^ (m.log2 + 1) := by exact_mod_cast Nat.lt_log2_self
    have hlog : Int.log 2 (q * 2 ^ e) = m.log2 + e := by
      refine log_eq ?_ ?_
      · rw [← two_pow_mul]
        gcongr
        linarith
      · rw [show (m.log2 : ℤ) + e + 1 = ((m.log2 + 1 : ℕ) : ℤ) + e by push_cast; ring,
          ← two_pow_mul]
        gcongr
        linarith
    rw [hlog]

/-- `u` has the sign `s` and the magnitude `q`, in canonical form. -/
inductive Signed (s : Sign) (q : ℚ) : UnpackedFloat → Prop
  | zero (h1 : q = 0) : Signed s q (.zero s)
  | finite (m : ℕ) (e : ℤ) (hm : 0 < m) (h1 : m < 2 ^ 24) (h2 : -149 ≤ e)
      (h3 : 2 ^ 23 ≤ m ∨ e = -149) (h4 : q = m * 2 ^ e) : Signed s q (.finite s m e hm)

theorem Signed.canonical {s : Sign} {q : ℚ} {u : UnpackedFloat} (h : Signed s q u) :
    Canonical u := by
  cases h with
  | zero h1 => exact .zero s
  | finite m e hm h1 h2 h3 h4 => exact .finite s m e hm h1 h2 h3

theorem apply_eq_mul (s : Sign) (n : ℤ) : s.apply n = s.apply 1 * n := by
  cases s
  · exact neg_eq_neg_one_mul n
  · exact (one_mul n).symm

theorem Signed.worth_eq {s : Sign} {q : ℚ} {u : UnpackedFloat} (h : Signed s q u) :
    worth u = (s.apply 1 : ℤ) * q := by
  cases h with
  | zero h1 => rw [h1, mul_zero]; rfl
  | finite m e hm h1 h2 h3 h4 =>
    rw [h4, worth, apply_eq_mul s m]
    push_cast
    ring

/-- The second shift undoes what rounding up to a power of two has added. -/
theorem carry {s : Sign} {r : ℕ} {t : ℤ} (h1 : r ≤ 2 ^ 24) (h2 : -149 ≤ t)
    (h3 : 2 ^ 23 ≤ r ∨ t = -149) :
    let a := shiftToTargetExponent Format.binary32 r t .exact
    Signed s (r * 2 ^ t)
      (if h : a.1.mantissa = 0 then .zero s
        else .finite s a.1.mantissa a.2 (Nat.pos_of_ne_zero h)) := by
  rcases h1.lt_or_eq with h | rfl
  · have hlog : r.log2 < 24 := by
      by_cases hr : r = 0
      · rw [hr]; decide
      · exact (Nat.log2_lt hr).2 h
    have hshift : (Format.binary32.targetExponent (totalExponent r t) - t).toNat = 0 := by
      rw [targetExponent_eq]; omega
    simp only [shiftToTargetExponent, shiftToExponent, hshift, Nat.cast_zero, add_zero]
    show Signed s _ (if h : r = 0 then .zero s else .finite s r t (Nat.pos_of_ne_zero h))
    split
    · next hr => exact .zero (by rw [hr]; simp)
    · next hr => exact .finite r t _ h h2 h3 rfl
  · have hshift : (Format.binary32.targetExponent (totalExponent (2 ^ 24) t) - t).toNat = 1 := by
      rw [targetExponent_eq, Nat.log2_two_pow]; omega
    simp only [shiftToTargetExponent, shiftToExponent, hshift]
    show Signed s _ (.finite s (2 ^ 23) (t + 1) (by decide))
    refine .finite (2 ^ 23) (t + 1) _ (by decide) (by omega) (.inl le_rfl) ?_
    rw [zpow_add₀ (by norm_num)]
    push_cast
    ring

/-- Rounding a mantissa with two more bits gives the float nearest to what they hold. -/
theorem roundWithAccuracy_signed (s : Sign) {m : ℕ} {e : ℤ} {acc : Accuracy} {q : ℚ}
    (h1 : Holds (.ofMantissaAndAccuracy m acc) q) (h2 : m ≤ q) (h3 : q < m + 1) (hq : 0 < q)
    (h4 : e ≤ max (m.log2 + e - 23) (-149)) :
    Signed s (rnd (q * 2 ^ e)) (roundWithAccuracy Format.binary32 s m e acc) := by
  obtain ⟨t, ht⟩ : ∃ t, t = max (m.log2 + e - 23 : ℤ) (-149) := ⟨_, rfl⟩
  obtain ⟨k, hk⟩ : ∃ k, k = (t - e).toNat := ⟨_, rfl⟩
  obtain ⟨em, hem⟩ : ∃ em, em = ExtendedMantissa.ofMantissaAndAccuracy m acc >>> k := ⟨_, rfl⟩
  have hfirst : shiftToTargetExponent Format.binary32 m e acc = (em, t) := by
    have h5 : e + k = t := by omega
    rw [shiftToTargetExponent, targetExponent_eq, ← ht, shiftToExponent, ← hk, ← hem, h5]
  -- in units of the last place
  have hunits : q / 2 ^ k = q * 2 ^ e / 2 ^ t := by
    rw [div_eq_div_iff (by positivity) (by positivity), mul_assoc, mul_comm ((2 : ℚ) ^ e),
      two_pow_mul]
    congr 2
    omega
  have hround : (em.roundedMantissa : ℤ) = nearest (q / 2 ^ k) := by
    rw [hem]
    exact (h1.shiftRight k).rounded
  have hrnd : rnd (q * 2 ^ e) = em.roundedMantissa * 2 ^ t := by
    have h5 : ((em.roundedMantissa : ℤ) : ℚ) = nearest (q / 2 ^ k) := by rw [hround]
    rw [rnd, spacing_eq hq h2 h3 h4, ← ht, ← hunits, ← h5]
    rfl
  have hpow : q < 2 ^ (m.log2 + 1) := lt_of_lt_of_le h3 (by exact_mod_cast Nat.lt_log2_self)
  have hhigh : em.roundedMantissa ≤ 2 ^ 24 := by
    have h5 : q / 2 ^ k ≤ ((2 ^ 24 : ℤ) : ℚ) := by
      rw [div_le_iff₀ (by positivity)]
      have h6 : (2 : ℚ) ^ (m.log2 + 1) ≤ 2 ^ (24 + k) :=
        pow_le_pow_right₀ (by norm_num) (by omega)
      rw [pow_add 2 24 k] at h6
      push_cast
      linarith
    have h6 := nearest_le h5
    omega
  have hlow : 2 ^ 23 ≤ em.roundedMantissa ∨ t = -149 := by
    rcases eq_or_ne t (-149) with h | h
    · exact .inr h
    · left
      have hm : m ≠ 0 := by
        rintro rfl
        rw [Nat.log2_zero] at ht h4
        omega
      have h5 : ((2 ^ 23 : ℤ) : ℚ) ≤ q / 2 ^ k := by
        rw [le_div_iff₀ (by positivity)]
        have h6 : (2 : ℚ) ^ (23 + k) ≤ 2 ^ m.log2 :=
          pow_le_pow_right₀ (by norm_num) (by omega)
        have h7 : (2 : ℚ) ^ m.log2 ≤ m := by exact_mod_cast Nat.log2_self_le hm
        rw [pow_add 2 23 k] at h6
        push_cast
        linarith
      have h6 := le_nearest h5
      omega
  rw [hrnd, roundWithAccuracy, hfirst]
  exact carry hhigh (by omega) hlow

theorem log2_shiftLeft {m : ℕ} (k : ℕ) (hm : 0 < m) : (m <<< k).log2 = m.log2 + k := by
  rw [Nat.shiftLeft_eq, Nat.log2_eq_iff (by positivity)]
  constructor
  · rw [pow_add]
    gcongr
    exact Nat.log2_self_le hm.ne'
  · rw [add_right_comm, pow_add]
    gcongr
    exact Nat.lt_log2_self

theorem round_signed (s : Sign) {m : ℕ} (e : ℤ) (hm : 0 < m) :
    Signed s (rnd (m * 2 ^ e)) (UnpackedFloat.round Format.binary32 s m e) := by
  obtain ⟨k, hk⟩ : ∃ k, k = (e - max (m.log2 + e - 23 : ℤ) (-149)).toNat := ⟨_, rfl⟩
  have hmul : (m <<< k : ℕ) = m * 2 ^ k := Nat.shiftLeft_eq m k
  have hlog := log2_shiftLeft k hm
  have hval : ((m <<< k : ℕ) : ℚ) * 2 ^ (e - k) = m * 2 ^ e := by
    rw [hmul]
    push_cast
    rw [mul_assoc, two_pow_mul]
    congr 2
    omega
  have h1 := roundWithAccuracy_signed s (holds_exact (m <<< k)) le_rfl (lt_add_one _)
    (e := e - k) (by rw [hmul]; positivity) (by rw [hlog]; omega)
  rw [hval] at h1
  rw [UnpackedFloat.round, targetExponent_eq, decreaseExponent, ← hk]
  exact h1

theorem normalize_canonical (n : ℤ) (e : ℤ) (z : Sign) :
    Canonical (UnpackedFloat.normalize Format.binary32 n e z)
      ∧ worth (UnpackedFloat.normalize Format.binary32 n e z) = rnd (n * 2 ^ e) := by
  unfold UnpackedFloat.normalize
  rcases lt_trichotomy n 0 with h | rfl | h
  · have h1 := round_signed .negative e (show 0 < (-n).toNat by omega)
    have h2 : (((-n).toNat : ℤ) : ℚ) = ((-n : ℤ) : ℚ) := by rw [Int.toNat_of_nonneg (by omega)]
    rw [compare_lt_iff_lt.2 h]
    refine ⟨h1.canonical, h1.worth_eq.trans ?_⟩
    rw [show ((Sign.apply .negative 1 : ℤ) : ℚ) = -1 by norm_num [Sign.apply], neg_one_mul,
      ← rnd_neg, ← Int.cast_natCast, h2, Int.cast_neg, neg_mul, neg_neg]
  · rw [compare_eq_iff_eq.2 rfl]
    exact ⟨.zero z, by simp [worth, rnd_zero]⟩
  · have h1 := round_signed .positive e (show 0 < n.toNat by omega)
    have h2 : ((n.toNat : ℤ) : ℚ) = (n : ℚ) := by rw [Int.toNat_of_nonneg (by omega)]
    rw [compare_gt_iff_gt.2 h]
    refine ⟨h1.canonical, h1.worth_eq.trans ?_⟩
    rw [show ((Sign.apply .positive 1 : ℤ) : ℚ) = 1 by norm_num [Sign.apply], one_mul,
      ← Int.cast_natCast, h2]

/-! ## arithmetic -/

/-- `x` is the float nearest to `q`. -/
def Rounds (x : Float32) (q : ℚ) : Prop :=
  ∃ u, Canonical u ∧ worth u = rnd q ∧ x = .ofModel (.pack u)

theorem Rounds.finite {x : Float32} {q : ℚ} (h1 : Rounds x q) (h2 : |rnd q| < 2 ^ 128) :
    x.isFinite ∧ val x = rnd q := by
  obtain ⟨u, h3, h4, rfl⟩ := h1
  have h5 : unpacked (.ofModel (.pack u)) = u := unpacked_pack h3 (by rw [h4]; exact h2)
  exact ⟨isFinite_of_unpacked h5 h3, by rw [val, h5, h4]⟩

/-- A number of 24 bits within range is its own rounding. -/
theorem Rounds.exact {x : Float32} {q : ℚ} (h1 : Rounds x q) (h2 : rnd q = q)
    (h3 : |q| < 2 ^ 128) : x.isFinite ∧ val x = q := by
  obtain ⟨h4, h5⟩ := h1.finite (by rw [h2]; exact h3)
  exact ⟨h4, h5.trans h2⟩

theorem Rounds.whole {x : Float32} {n : ℤ} (h1 : Rounds x n) (h2 : |n| ≤ 2 ^ 24) :
    x.isFinite ∧ val x = n := by
  have h3 : |(n : ℚ)| ≤ 2 ^ 24 := by exact_mod_cast h2
  exact h1.exact (rnd_intCast h2) (lt_of_le_of_lt h3 (by norm_num))

theorem exists_bits {u : UnpackedFloat} (h1 : Canonical u) :
    ∃ m e : ℤ, |m| < 2 ^ 24 ∧ -149 ≤ e ∧ worth u = m * 2 ^ e := by
  cases h1 with
  | zero s => exact ⟨0, 0, by norm_num, by norm_num, by simp [worth]⟩
  | finite s m e hm h2 h3 h4 =>
    refine ⟨s.apply m, e, ?_, h3, rfl⟩
    cases s
    · show |-(m : ℤ)| < 2 ^ 24
      rw [abs_neg]
      exact_mod_cast h2
    · show |(m : ℤ)| < 2 ^ 24
      exact_mod_cast h2

theorem rnd_worth {u : UnpackedFloat} (h1 : Canonical u) : rnd (worth u) = worth u := by
  obtain ⟨m, e, h2, h3, h4⟩ := exists_bits h1
  rw [h4]
  exact rnd_of_bits h2 h3

/-- Both mantissas brought to the smaller exponent. -/
theorem aligned (s : Sign) (m : ℕ) {e t : ℤ} (h1 : t ≤ e) :
    (s.apply ((decreaseExponent m e t).1 : ℤ) : ℚ) * 2 ^ t = (s.apply (m : ℤ) : ℚ) * 2 ^ e := by
  have h2 : (2 : ℚ) ^ e = 2 ^ (e - t).toNat * 2 ^ t := by
    rw [two_pow_mul]
    congr 1
    omega
  rw [apply_eq_mul s m, apply_eq_mul s, decreaseExponent, Nat.shiftLeft_eq, h2]
  push_cast
  ring

theorem add_canonical {u v : UnpackedFloat} (hu : Canonical u) (hv : Canonical v) :
    Canonical (UnpackedFloat.add Format.binary32 u v)
      ∧ worth (UnpackedFloat.add Format.binary32 u v) = rnd (worth u + worth v) := by
  cases hu with
  | zero s =>
    cases hv with
    | zero t =>
      have h1 : rnd (worth (.zero s) + worth (.zero t)) = 0 := by
        rw [show worth (.zero s) + worth (.zero t) = 0 from add_zero 0, rnd_zero]
      rw [h1, UnpackedFloat.add]
      split
      · exact ⟨.zero _, rfl⟩
      · exact ⟨.zero _, rfl⟩
    | finite t n f hn h4 h5 h6 =>
      refine ⟨.finite t n f hn h4 h5 h6, ?_⟩
      rw [show worth (.zero s) = 0 from rfl, zero_add, rnd_worth (.finite t n f hn h4 h5 h6)]
      rfl
  | finite s m e hm h1 h2 h3 =>
    cases hv with
    | zero t =>
      refine ⟨.finite s m e hm h1 h2 h3, ?_⟩
      rw [show worth (.zero t) = 0 from rfl, add_zero, rnd_worth (.finite s m e hm h1 h2 h3)]
      rfl
    | finite t n f hn h4 h5 h6 =>
      obtain ⟨h7, h8⟩ := normalize_canonical
        (s.apply ((decreaseExponent m e (min e f)).1 : ℤ)
          + t.apply ((decreaseExponent n f (min e f)).1 : ℤ)) (min e f) .positive
      refine ⟨h7, h8.trans ?_⟩
      rw [Int.cast_add, add_mul, aligned s m (min_le_left e f), aligned t n (min_le_right e f)]
      rfl

theorem sub_canonical {u v : UnpackedFloat} (hu : Canonical u) (hv : Canonical v) :
    UnpackedFloat.sub Format.binary32 u v = UnpackedFloat.add Format.binary32 u v.neg := by
  cases hu with
  | zero s => cases hv <;> rfl
  | finite s m e hm h1 h2 h3 =>
    cases hv with
    | zero t => rfl
    | finite t n f hn h4 h5 h6 =>
      simp only [UnpackedFloat.sub, UnpackedFloat.neg, UnpackedFloat.add, apply_neg,
        Int.sub_eq_add_neg]

theorem rounds_add {x y : Float32} (hx : x.isFinite) (hy : y.isFinite) :
    Rounds (x + y) (val x + val y) := by
  obtain ⟨h1, h2⟩ := add_canonical (unpacked_canonical hx).1 (unpacked_canonical hy).1
  exact ⟨_, h1, h2, rfl⟩

theorem rounds_sub {x y : Float32} (hx : x.isFinite) (hy : y.isFinite) :
    Rounds (x - y) (val x - val y) := by
  have h1 := (unpacked_canonical hx).1
  obtain ⟨h2, h3⟩ := canonical_neg (unpacked_canonical hy).1
  obtain ⟨h4, h5⟩ := add_canonical h1 h2
  rw [← sub_canonical h1 (unpacked_canonical hy).1] at h4 h5
  rw [h3, ← sub_eq_add_neg] at h5
  exact ⟨_, h4, h5, rfl⟩

theorem apply_mul (s t : Sign) : (s * t).apply 1 = s.apply 1 * t.apply 1 := by
  cases s <;> cases t <;> rfl

theorem rnd_apply (s : Sign) (q : ℚ) :
    rnd (((s.apply 1 : ℤ) : ℚ) * q) = ((s.apply 1 : ℤ) : ℚ) * rnd q := by
  cases s
  · show rnd (((-1 : ℤ) : ℚ) * q) = ((-1 : ℤ) : ℚ) * rnd q
    simp [rnd_neg]
  · show rnd (((1 : ℤ) : ℚ) * q) = ((1 : ℤ) : ℚ) * rnd q
    simp

theorem mul_exponent_le {m n : ℕ} {e f : ℤ} (hm : 0 < m) (hn : 0 < n)
    (h1 : 2 ^ 23 ≤ m ∨ e = -149) (h2 : 2 ^ 23 ≤ n ∨ f = -149) :
    e + f ≤ max (((m * n).log2 : ℤ) + (e + f) - 23) (-149) := by
  by_cases h3 : 2 ^ 23 ≤ m * n
  · have h4 : 23 ≤ (m * n).log2 := (Nat.le_log2 (by positivity)).2 h3
    omega
  · have h4 : m ≤ m * n := Nat.le_mul_of_pos_right m hn
    have h5 : n ≤ m * n := Nat.le_mul_of_pos_left n hm
    omega

theorem mul_canonical {u v : UnpackedFloat} (hu : Canonical u) (hv : Canonical v) :
    Canonical (UnpackedFloat.mul Format.binary32 u v)
      ∧ worth (UnpackedFloat.mul Format.binary32 u v) = rnd (worth u * worth v) := by
  cases hu with
  | zero s =>
    have h1 : rnd (worth (.zero s) * worth v) = 0 := by
      rw [show worth (.zero s) = 0 from rfl, zero_mul, rnd_zero]
    rw [h1]
    cases hv with
    | zero t => exact ⟨.zero _, rfl⟩
    | finite t n f hn h4 h5 h6 => exact ⟨.zero _, rfl⟩
  | finite s m e hm h1 h2 h3 =>
    cases hv with
    | zero t =>
      refine ⟨.zero _, ?_⟩
      rw [show worth (.zero t) = 0 from rfl, mul_zero, rnd_zero]
      rfl
    | finite t n f hn h4 h5 h6 =>
      have h7 := roundWithAccuracy_signed (s * t) (holds_exact (m * n)) le_rfl (lt_add_one _)
        (Nat.cast_pos.2 (Nat.mul_pos hm hn)) (mul_exponent_le hm hn h3 h6)
      refine ⟨h7.canonical, h7.worth_eq.trans ?_⟩
      rw [worth, worth, apply_eq_mul s m, apply_eq_mul t n, apply_mul, Int.cast_mul, mul_assoc,
        ← rnd_apply, ← rnd_apply]
      congr 1
      push_cast
      rw [zpow_add₀ (by norm_num)]
      ring

theorem rounds_mul {x y : Float32} (hx : x.isFinite) (hy : y.isFinite) :
    Rounds (x * y) (val x * val y) := by
  obtain ⟨h1, h2⟩ := mul_canonical (unpacked_canonical hx).1 (unpacked_canonical hy).1
  exact ⟨_, h1, h2, rfl⟩

/-! ## conversions -/

theorem rounds_toFloat32 (n : UInt32) : Rounds n.toFloat32 (n.toNat : ℤ) := by
  obtain ⟨h1, h2⟩ := normalize_canonical n.toNat 0 .positive
  exact ⟨_, h1, h2.trans (by simp), rfl⟩

theorem rounds_toFloat32_of_word (n : UInt64) : Rounds n.toFloat32 (n.toNat : ℤ) := by
  obtain ⟨h1, h2⟩ := normalize_canonical n.toNat 0 .positive
  exact ⟨_, h1, h2.trans (by simp), rfl⟩

theorem finite_one :
    (Float32.ofBits 0x3F800000).isFinite ∧ val (Float32.ofBits 0x3F800000) = 1 := by
  have h1 : unpacked (Float32.ofBits 0x3F800000)
      = .finite .positive 8388608 (-23) (by decide) := rfl
  refine ⟨rfl, ?_⟩
  rw [val, h1, worth]
  norm_num [Sign.apply]

theorem finite_ofNat {n : ℕ} (h1 : n < 2 ^ 23) :
    (Float32.ofNat n).isFinite ∧ val (Float32.ofNat n) = n := by
  have h2 : Float32.ofNat n = n.toUInt64.toFloat32 * Float32.ofBits 0x3F800000 := by
    show Float32.ofScientific n false 0 = _
    rw [Float32.ofScientific, dif_pos ⟨h1, by decide⟩]
    rfl
  have h3 : n.toUInt64.toNat = n := Nat.mod_eq_of_lt (by omega)
  obtain ⟨h4, h5⟩ := (rounds_toFloat32_of_word n.toUInt64).whole (by rw [h3, Nat.abs_cast]; omega)
  have h6 := rounds_mul h4 finite_one.1
  rw [finite_one.2, h5, h3, mul_one] at h6
  rw [h2]
  exact h6.whole (by rw [Nat.abs_cast]; omega)

theorem finite_ofInt {n : ℤ} (h1 : |n| < 2 ^ 23) :
    (Float32.ofInt n).isFinite ∧ val (Float32.ofInt n) = n := by
  cases n with
  | ofNat n =>
    rw [Int.ofNat_eq_natCast, Nat.abs_cast] at h1
    exact finite_ofNat (by exact_mod_cast h1)
  | negSucc n =>
    have h2 : n + 1 < 2 ^ 23 := by
      rw [Int.negSucc_eq, abs_neg] at h1
      exact_mod_cast h1
    obtain ⟨h3, h4⟩ := finite_ofNat h2
    obtain ⟨h5, h6⟩ := finite_neg h3
    refine ⟨h5, h6.trans ?_⟩
    rw [h4, Int.negSucc_eq]
    push_cast
    ring

theorem finite_of_ofInt {x : Float32} {n : ℤ} (h1 : x = Float32.ofInt n) (h2 : |n| < 2 ^ 23) :
    x.isFinite ∧ val x = n := by
  rw [h1]
  exact finite_ofInt h2

theorem roundToInt_positive (m : ℕ) (e : ℤ) :
    roundToInt .positive m e = ⌊(m : ℚ) * 2 ^ e⌋ := by
  obtain ⟨k, hk⟩ : ∃ k, k = (e - 0).toNat := ⟨_, rfl⟩
  obtain ⟨j, hj⟩ : ∃ j, j = (0 - (e - k)).toNat := ⟨_, rfl⟩
  have h1 := ((holds_exact (m <<< k)).shiftRight j).floor
  have h2 : ((m <<< k : ℕ) : ℚ) / 2 ^ j = m * 2 ^ e := by
    rw [div_eq_iff (by positivity), Nat.shiftLeft_eq, mul_assoc, mul_comm ((2 : ℚ) ^ e),
      two_pow_mul]
    push_cast
    rw [← zpow_natCast]
    congr 2
    omega
  rw [h2] at h1
  rw [h1]
  simp only [roundToInt, decreaseExponent, ← hk, shiftToExponent, ← hj]
  rfl

theorem toInt_canonical {u : UnpackedFloat} (h1 : Canonical u) (h2 : 0 ≤ worth u) (a b : ℤ) :
    u.toInt a b = ⌊worth u⌋ := by
  cases h1 with
  | zero s => exact Int.floor_zero.symm
  | finite s m e hm h3 h4 h5 =>
    cases s with
    | negative => exact absurd h2 (worth_neg m e hm).not_ge
    | positive => exact roundToInt_positive m e

/-- Conversion to a word drops the fraction. -/
theorem toNat_toUInt32 {x : Float32} (hx : x.isFinite) (h1 : 0 ≤ val x) (h2 : val x < 2 ^ 32) :
    (x.toUInt32.toNat : ℤ) = ⌊val x⌋ := by
  have hpos : 0 ≤ ⌊val x⌋ := Int.floor_nonneg.2 h1
  have hlt : ⌊val x⌋ < 2 ^ 32 := by
    rw [Int.floor_lt]
    exact_mod_cast h2
  have hint : (unpacked x).toInt 0 (UInt32.size - 1) = ⌊val x⌋ :=
    toInt_canonical (unpacked_canonical hx).1 h1 _ _
  show ((UInt32.ofNatClamp ((unpacked x).toInt 0 (UInt32.size - 1)).toNat).toNat : ℤ) = _
  have hsmall : ⌊val x⌋.toNat < UInt32.size := by
    show ⌊val x⌋.toNat < 2 ^ 32
    omega
  rw [hint, UInt32.toNat_ofNatClamp_of_lt hsmall]
  exact Int.toNat_of_nonneg hpos

end Binary32
end HueSaturation
