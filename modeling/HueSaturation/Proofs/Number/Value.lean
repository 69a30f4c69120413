import HueSaturation.Number.Binary32
import Mathlib

/-!
# The number that a float stands for

A finite float is a whole number of up to 24 bits times a power of two. Everything that the
arithmetic and the comparisons do is read off that rational number.

* `val`                 the number that a finite float stands for;
* `Canonical`           the one form in which floats are stored;
* `unpack_pack`         storing a canonical float within range keeps it;
* `finite_neg`, `finite_abs`, `finite_copySign`   what the sign operations give;
* `lt_iff`, `le_iff`, `beq_iff`   finite floats compare as their numbers do.
-/

namespace HueSaturation
namespace Binary32

open Float.Model
open Float.Model.UnpackedFloat

/-- The parts of a float: its sign, mantissa and exponent. -/
def unpacked (x : Float32) : UnpackedFloat :=
  x.toModel.unpack

/-- The rational number that an unpacked float stands for; zero for those without one. -/
def worth : UnpackedFloat → ℚ
  | .finite s m e _ => (s.apply m : ℚ) * 2 ^ e
  | _ => 0

/-- The form in which floats are stored: a mantissa of 24 bits, and of fewer only at the least
exponent. -/
inductive Canonical : UnpackedFloat → Prop
  | zero (s : Sign) : Canonical (.zero s)
  | finite (s : Sign) (m : ℕ) (e : ℤ) (hm : 0 < m) (h1 : m < 2 ^ 24) (h2 : -149 ≤ e)
      (h3 : 2 ^ 23 ≤ m ∨ e = -149) : Canonical (.finite s m e hm)

/-- The number that a finite float stands for. -/
def val (x : Float32) : ℚ :=
  worth (unpacked x)

theorem abs_worth (s : Sign) (m : ℕ) (e : ℤ) (hm : 0 < m) :
    |worth (.finite s m e hm)| = m * 2 ^ e := by
  have h1 : |((s.apply m : ℤ) : ℚ)| = m := by
    cases s <;> simp [Sign.apply]
  rw [worth, abs_mul, h1, abs_of_pos (by positivity : (0 : ℚ) < 2 ^ e)]

theorem two_pow_mul (k : ℕ) (e : ℤ) : (2 : ℚ) ^ k * 2 ^ e = 2 ^ (k + e) := by
  rw [← zpow_natCast, ← zpow_add₀ (by norm_num)]

/-- A canonical float is within the range of binary32 iff its exponent is. -/
theorem abs_worth_lt_iff (s : Sign) (m : ℕ) (e : ℤ) (hm : 0 < m) (h1 : m < 2 ^ 24)
    (h3 : 2 ^ 23 ≤ m ∨ e = -149) :
    |worth (.finite s m e hm)| < 2 ^ 128 ↔ e ≤ 104 := by
  have hpos : (0 : ℚ) < 2 ^ e := by positivity
  have hm2 : (m : ℚ) < 2 ^ 24 := by exact_mod_cast h1
  rw [abs_worth]
  constructor
  · intro h
    by_contra hc
    have hm1 : (2 : ℚ) ^ 23 ≤ m := by
      have : 2 ^ 23 ≤ m := h3.resolve_right (by omega)
      exact_mod_cast this
    have h4 : (2 : ℚ) ^ (128 : ℤ) ≤ 2 ^ ((23 : ℕ) + e) :=
      zpow_le_zpow_right₀ (by norm_num) (by push_cast; omega)
    have h5 : (2 : ℚ) ^ 23 * 2 ^ e ≤ m * 2 ^ e := by gcongr
    rw [two_pow_mul] at h5
    exact absurd (lt_of_le_of_lt (h4.trans h5) h) (by norm_num)
  · intro h
    have h4 : (2 : ℚ) ^ ((24 : ℕ) + e) ≤ 2 ^ (128 : ℤ) :=
      zpow_le_zpow_right₀ (by norm_num) (by push_cast; omega)
    calc (m : ℚ) * 2 ^ e < 2 ^ 24 * 2 ^ e := by gcongr
      _ = 2 ^ ((24 : ℕ) + e) := two_pow_mul 24 e
      _ ≤ 2 ^ (128 : ℤ) := h4
      _ = 2 ^ 128 := by norm_num

theorem unpack_canonical (b : BitVec Format.binary32.numBits)
    (h1 : (UnpackedFloat.unpack Format.binary32 b).isFinite) :
    Canonical (UnpackedFloat.unpack Format.binary32 b)
      ∧ |worth (UnpackedFloat.unpack Format.binary32 b)| < 2 ^ 128 := by
  have hbias : ((Format.binary32.exponentBias : ℤ)) = 127 := rfl
  have hmant : (unpackMantissa b).toNat < 2 ^ 23 := (unpackMantissa b).isLt
  have hexp : (unpackExponent b).toNat < 2 ^ 8 := (unpackExponent b).isLt
  unfold UnpackedFloat.unpack at h1 ⊢
  simp only [hbias, Nat.cast_ofNat] at h1 ⊢
  split at h1
  · split at h1 <;> simp [UnpackedFloat.isFinite] at h1
  · next hinf =>
    have hinf' : (unpackExponent b).toNat ≠ 255 := fun h => hinf (BitVec.eq_of_toNat_eq h)
    rw [if_neg hinf]
    split
    · next hsub =>
      have hsub' : (unpackExponent b).toNat = 0 := congrArg BitVec.toNat hsub
      split
      · next hz => exact ⟨.zero _, by simp [worth]⟩
      · next hz =>
        have he : ((unpackExponent b).toNat : ℤ) - (127 + 23) + 1 = -149 := by omega
        have hm : (unpackMantissa b).toNat < 2 ^ 24 := by omega
        exact ⟨.finite _ _ _ _ hm (by omega) (.inr he),
          (abs_worth_lt_iff _ _ _ _ hm (.inr he)).2 (by omega)⟩
    · next hnorm =>
      have hnorm' : (unpackExponent b).toNat ≠ 0 := fun h => hnorm (BitVec.eq_of_toNat_eq h)
      have hm : (1#1 ++ unpackMantissa b).toNat = 2 ^ 23 + (unpackMantissa b).toNat := by
        rw [BitVec.toNat_append, ← Nat.shiftLeft_add_eq_or_of_lt hmant]
        rfl
      have hlow : 2 ^ 23 ≤ (1#1 ++ unpackMantissa b).toNat := by omega
      have hhigh : (1#1 ++ unpackMantissa b).toNat < 2 ^ 24 := by omega
      exact ⟨.finite _ _ _ _ hhigh (by omega) (.inl hlow),
        (abs_worth_lt_iff _ _ _ _ hhigh (.inl hlow)).2 (by omega)⟩

theorem unpack_normal (s : Sign) (e : BitVec 8) (m : BitVec 23) (h1 : e.toNat ≠ 255)
    (h2 : e.toNat ≠ 0) (n : ℕ) (hn : n = 2 ^ 23 + m.toNat) (k : ℤ) (hk : k = e.toNat - 150)
    (hpos : 0 < n) :
    UnpackedFloat.unpack Format.binary32 (packComponents Format.binary32 s e m)
      = .finite s n k hpos := by
  have hinf : e ≠ -1#8 := fun h => h1 (congrArg BitVec.toNat h)
  have hsub : e ≠ 0#8 := fun h => h2 (congrArg BitVec.toNat h)
  have hm : (1#1 ++ m).toNat = 2 ^ 23 + m.toNat := by
    rw [BitVec.toNat_append, ← Nat.shiftLeft_add_eq_or_of_lt m.isLt]
    rfl
  unfold UnpackedFloat.unpack
  simp only [unpackMantissa_packComponents, unpackExponent_packComponents,
    unpackSign_packComponents, Sign.ofBitVec_toBitVec]
  rw [if_neg hinf, if_neg hsub]
  subst hn hk
  simp only [hm]
  congr 1

theorem unpack_subnormal (s : Sign) (m : BitVec 23) (hpos : 0 < m.toNat) :
    UnpackedFloat.unpack Format.binary32 (packComponents Format.binary32 s 0#8 m)
      = .finite s m.toNat (-149) hpos := by
  have hm : m ≠ 0#23 := fun h => by simp [h] at hpos
  unfold UnpackedFloat.unpack
  simp only [unpackMantissa_packComponents, unpackExponent_packComponents,
    unpackSign_packComponents, Sign.ofBitVec_toBitVec]
  rw [if_neg (by decide), if_pos trivial, dif_neg hm]
  congr 1

theorem unpack_pack_zero (s : Sign) :
    UnpackedFloat.unpack Format.binary32 (UnpackedFloat.pack Format.binary32 (.zero s))
      = .zero s := by
  cases s <;> rfl

/-- Storing a canonical float within range keeps every part of it. -/
theorem unpack_pack {u : UnpackedFloat} (h1 : Canonical u) (h2 : |worth u| < 2 ^ 128) :
    UnpackedFloat.unpack Format.binary32 (UnpackedFloat.pack Format.binary32 u) = u := by
  cases h1 with
  | zero s => exact unpack_pack_zero s
  | finite s m e hm h3 h4 h5 =>
    have he : e ≤ 104 := (abs_worth_lt_iff s m e hm h3 h5).1 h2
    have hbias : ((Format.binary32.exponentBias : ℤ)) = 127 := rfl
    have hbits : Format.binary32.mantissaBits = 24 := rfl
    unfold UnpackedFloat.pack
    simp only [hbias, hbits, Nat.cast_ofNat]
    rw [if_neg (by omega)]
    rcases Nat.lt_or_ge m (2 ^ 23) with h6 | h6
    · have hlog : m.log2 < 23 := (Nat.log2_lt (by omega)).2 h6
      obtain rfl : e = -149 := h5.resolve_left (by omega)
      have hval : (BitVec.ofNat 23 m).toNat = m := Nat.mod_eq_of_lt h6
      rw [if_neg (by omega)]
      refine (unpack_subnormal s (BitVec.ofNat 23 m) (by omega)).trans ?_
      congr 1
    · have hlog : 23 ≤ m.log2 := (Nat.le_log2 (by omega)).2 h6
      have hlog' : m.log2 < 24 := (Nat.log2_lt (by omega)).2 h3
      have hval : (BitVec.ofNat 23 m).toNat = m % 2 ^ 23 := rfl
      have hexp : (BitVec.ofNat 8 (e + 127 + 23).toNat).toNat = (e + 127 + 23).toNat % 2 ^ 8 := rfl
      rw [if_pos (by omega)]
      exact unpack_normal s _ _ (by omega) (by omega) m (by omega) e (by omega) hm

/-! ## floats -/

theorem unpacked_canonical {x : Float32} (h1 : x.isFinite) :
    Canonical (unpacked x) ∧ |val x| < 2 ^ 128 :=
  unpack_canonical x.toModel.toBits.toBitVec h1

/-- What an operation makes of parts within range are the parts of its result. -/
theorem unpacked_pack {u : UnpackedFloat} (h1 : Canonical u) (h2 : |worth u| < 2 ^ 128) :
    unpacked (.ofModel (.pack u)) = u :=
  unpack_pack h1 h2

theorem isFinite_of_unpacked {x : Float32} {u : UnpackedFloat} (h1 : unpacked x = u)
    (h2 : Canonical u) : x.isFinite := by
  have h3 : x.isFinite = u.isFinite := by rw [← h1]; rfl
  rw [h3]
  cases h2 <;> rfl

theorem apply_neg (s : Sign) (n : ℤ) : (-s).apply n = -s.apply n := by
  cases s
  · exact (neg_neg n).symm
  · rfl

theorem canonical_neg {u : UnpackedFloat} (h1 : Canonical u) :
    Canonical u.neg ∧ worth u.neg = -worth u := by
  cases h1 with
  | zero s => exact ⟨.zero _, by simp [UnpackedFloat.neg, worth]⟩
  | finite s m e hm h2 h3 h4 =>
    refine ⟨.finite _ m e hm h2 h3 h4, ?_⟩
    rw [UnpackedFloat.neg, worth, worth, apply_neg]
    push_cast
    ring

theorem canonical_abs {u : UnpackedFloat} (h1 : Canonical u) :
    Canonical u.abs ∧ worth u.abs = |worth u| := by
  cases h1 with
  | zero s => exact ⟨.zero _, by simp [UnpackedFloat.abs, worth]⟩
  | finite s m e hm h2 h3 h4 =>
    refine ⟨.finite _ m e hm h2 h3 h4, ?_⟩
    rw [abs_worth, UnpackedFloat.abs, worth]
    simp [Sign.apply]

theorem finite_neg {x : Float32} (h1 : x.isFinite) : (-x).isFinite ∧ val (-x) = -val x := by
  obtain ⟨h2, h3⟩ := unpacked_canonical h1
  obtain ⟨h4, h5⟩ := canonical_neg h2
  have h6 : |worth (unpacked x).neg| < 2 ^ 128 := by rw [h5, abs_neg]; exact h3
  have h7 : unpacked (-x) = (unpacked x).neg := unpacked_pack h4 h6
  exact ⟨isFinite_of_unpacked h7 h4, by rw [val, h7, h5]; rfl⟩

theorem finite_abs {x : Float32} (h1 : x.isFinite) : x.abs.isFinite ∧ val x.abs = |val x| := by
  obtain ⟨h2, h3⟩ := unpacked_canonical h1
  obtain ⟨h4, h5⟩ := canonical_abs h2
  have h6 : |worth (unpacked x).abs| < 2 ^ 128 := by rw [h5, abs_abs]; exact h3
  have h7 : unpacked x.abs = (unpacked x).abs := unpacked_pack h4 h6
  exact ⟨isFinite_of_unpacked h7 h4, by rw [val, h7, h5]; rfl⟩

/-! ## order -/

/-- Of two canonical magnitudes the one with the larger exponent is the larger. -/
theorem lt_of_exponent_lt {m n : ℕ} {e f : ℤ} (h1 : m < 2 ^ 24) (h2 : -149 ≤ e)
    (h3 : 2 ^ 23 ≤ n ∨ f = -149) (h4 : e < f) : (m : ℚ) * 2 ^ e < n * 2 ^ f := by
  have hn : (2 : ℚ) ^ 23 ≤ n := by
    have : 2 ^ 23 ≤ n := h3.resolve_right (by omega)
    exact_mod_cast this
  have hm : (m : ℚ) < 2 ^ 24 := by exact_mod_cast h1
  have hpow : (2 : ℚ) ^ ((24 : ℕ) + e) ≤ 2 ^ ((23 : ℕ) + f) :=
    zpow_le_zpow_right₀ (by norm_num) (by push_cast; omega)
  calc (m : ℚ) * 2 ^ e < 2 ^ 24 * 2 ^ e := by gcongr
    _ = 2 ^ ((24 : ℕ) + e) := two_pow_mul 24 e
    _ ≤ 2 ^ ((23 : ℕ) + f) := hpow
    _ = 2 ^ 23 * 2 ^ f := (two_pow_mul 23 f).symm
    _ ≤ n * 2 ^ f := by gcongr

theorem compare_magnitudes {m n : ℕ} {e f : ℤ} (h1 : m < 2 ^ 24) (h2 : -149 ≤ e)
    (h3 : 2 ^ 23 ≤ m ∨ e = -149) (h4 : n < 2 ^ 24) (h5 : -149 ≤ f)
    (h6 : 2 ^ 23 ≤ n ∨ f = -149) :
    (compare e f).then (compare m n) = compare ((m : ℚ) * 2 ^ e) (n * 2 ^ f) := by
  rcases lt_trichotomy e f with h | rfl | h
  · rw [compare_lt_iff_lt.2 h, compare_lt_iff_lt.2 (lt_of_exponent_lt h1 h2 h6 h)]
    rfl
  · have hpos : (0 : ℚ) < 2 ^ e := by positivity
    rw [compare_eq_iff_eq.2 rfl]
    show compare m n = _
    rcases lt_trichotomy m n with h | rfl | h
    · rw [compare_lt_iff_lt.2 h, compare_lt_iff_lt.2]
      gcongr
    · rw [compare_eq_iff_eq.2 rfl, compare_eq_iff_eq.2 rfl]
    · rw [compare_gt_iff_gt.2 h, compare_gt_iff_gt.2]
      show (n : ℚ) * 2 ^ e < m * 2 ^ e
      gcongr
  · rw [compare_gt_iff_gt.2 h, compare_gt_iff_gt.2 (lt_of_exponent_lt h4 h5 h3 h)]
    rfl

theorem worth_pos (m : ℕ) (e : ℤ) (hm : 0 < m) : 0 < worth (.finite .positive m e hm) := by
  have : (0 : ℚ) < m := by exact_mod_cast hm
  simp only [worth, Sign.apply]
  positivity

theorem worth_neg (m : ℕ) (e : ℤ) (hm : 0 < m) : worth (.finite .negative m e hm) < 0 := by
  have : (0 : ℚ) < m * 2 ^ e := by positivity
  simp only [worth, Sign.apply]
  push_cast
  linarith

theorem compare_neg_neg (p q : ℚ) : compare (-p) (-q) = (compare p q).swap := by
  rcases lt_trichotomy p q with h | rfl | h
  · rw [compare_lt_iff_lt.2 h, compare_gt_iff_gt.2 (neg_lt_neg h)]
    rfl
  · rw [compare_eq_iff_eq.2 rfl, compare_eq_iff_eq.2 rfl]
    rfl
  · rw [compare_gt_iff_gt.2 h, compare_lt_iff_lt.2 (neg_lt_neg h)]
    rfl

theorem compare_canonical {u v : UnpackedFloat} (hu : Canonical u) (hv : Canonical v) :
    u.compare v = some (compare (worth u) (worth v)) := by
  have below : ∀ p q : ℚ, p < q → some Ordering.lt = some (compare p q) :=
    fun p q h => congrArg some (compare_lt_iff_lt.2 h).symm
  have above : ∀ p q : ℚ, q < p → some Ordering.gt = some (compare p q) :=
    fun p q h => congrArg some (compare_gt_iff_gt.2 h).symm
  cases hu with
  | zero s =>
    cases hv with
    | zero t => rfl
    | finite t n f hn h4 h5 h6 =>
      cases t with
      | negative => exact above _ _ (worth_neg n f hn)
      | positive => exact below _ _ (worth_pos n f hn)
  | finite s m e hm h1 h2 h3 =>
    cases hv with
    | zero t =>
      cases s with
      | negative => exact below _ _ (worth_neg m e hm)
      | positive => exact above _ _ (worth_pos m e hm)
    | finite t n f hn h4 h5 h6 =>
      have hcomp := compare_magnitudes h1 h2 h3 h4 h5 h6
      cases s with
      | negative =>
        cases t with
        | negative =>
          simp only [worth, Sign.apply, Int.cast_neg, Int.cast_natCast, neg_mul]
          rw [compare_neg_neg, ← hcomp]
          rfl
        | positive => exact below _ _ ((worth_neg m e hm).trans (worth_pos n f hn))
      | positive =>
        cases t with
        | negative => exact above _ _ ((worth_neg n f hn).trans (worth_pos m e hm))
        | positive =>
          simp only [worth, Sign.apply, Int.cast_natCast]
          rw [← hcomp]
          rfl

theorem lt_iff {x y : Float32} (hx : x.isFinite) (hy : y.isFinite) : x < y ↔ val x < val y := by
  have h1 := compare_canonical (unpacked_canonical hx).1 (unpacked_canonical hy).1
  have h2 : x < y ↔ (unpacked x).compare (unpacked y) = some .lt := by
    show decide (UnpackedFloat.lt (unpacked x) (unpacked y) = true) = true ↔ _
    rw [decide_eq_true_iff, UnpackedFloat.lt, beq_iff_eq]
  rw [h2, h1, Option.some_inj, compare_lt_iff_lt]
  rfl

theorem le_iff {x y : Float32} (hx : x.isFinite) (hy : y.isFinite) : x ≤ y ↔ val x ≤ val y := by
  have h1 := compare_canonical (unpacked_canonical hx).1 (unpacked_canonical hy).1
  have h2 : x ≤ y ↔ ((unpacked x).compare (unpacked y)).any (·.isLE) := by
    show decide (UnpackedFloat.le (unpacked x) (unpacked y) = true) = true ↔ _
    rw [decide_eq_true_iff, UnpackedFloat.le]
  rw [h2, h1, Option.any_some, Ordering.isLE_iff_ne_gt]
  exact compare_le_iff_le

theorem beq_iff {x y : Float32} (hx : x.isFinite) (hy : y.isFinite) : x == y ↔ val x = val y := by
  have h1 := compare_canonical (unpacked_canonical hx).1 (unpacked_canonical hy).1
  have h2 : x == y ↔ (unpacked x).compare (unpacked y) = some .eq := by
    show UnpackedFloat.beq (unpacked x) (unpacked y) = true ↔ _
    rw [UnpackedFloat.beq, beq_iff_eq]
  rw [h2, h1, Option.some_inj, compare_eq_iff_eq]
  rfl

/-! ## the sign bit -/

theorem ofBitVec_unpackSign (b : BitVec Format.binary32.numBits) :
    Sign.ofBitVec (unpackSign b) = if 2 ^ 31 ≤ b.toNat then .negative else .positive := by
  have h1 : (unpackSign b).toNat = b.toNat / 2 ^ 31 % 2 := by
    simp [unpackSign, Nat.shiftRight_eq_div_pow]
  have h2 : b.toNat < 2 ^ 32 := b.isLt
  have h3 : unpackSign b = 0#1 ↔ b.toNat < 2 ^ 31 := by
    rw [← BitVec.toNat_inj, h1, BitVec.toNat_ofNat]
    omega
  rw [Sign.ofBitVec, ← ite_not]
  simp only [h3, not_lt]

theorem sign_of_unpack {b : BitVec Format.binary32.numBits} {s : Sign} {m : ℕ} {e : ℤ} {hm : 0 < m}
    (h1 : UnpackedFloat.unpack Format.binary32 b = .finite s m e hm) :
    s = Sign.ofBitVec (unpackSign b) := by
  unfold UnpackedFloat.unpack at h1
  simp only [] at h1
  split at h1
  · split at h1 <;> cases h1
  · split at h1
    · split at h1 <;> cases h1
      rfl
    · cases h1
      rfl

theorem signBit_of_finite {x : Float32} {s : Sign} {m : ℕ} {e : ℤ} {hm : 0 < m}
    (h1 : unpacked x = .finite s m e hm) : signBit x = true ↔ s = .negative := by
  have h2 : s = if 2 ^ 31 ≤ x.toBits.toNat then .negative else .positive :=
    (sign_of_unpack h1).trans (ofBitVec_unpackSign _)
  have h3 : signBit x = true ↔ 2 ^ 31 ≤ x.toBits.toNat := by
    rw [signBit, decide_eq_true_iff]
    exact UInt32.le_iff_toNat_le
  rw [h3, h2]
  split <;> simp_all

theorem signBit_of_neg {x : Float32} (h1 : val x < 0) : signBit x = true := by
  rw [val] at h1
  cases h2 : unpacked x with
  | finite s m e hm =>
    rw [signBit_of_finite h2]
    rw [h2] at h1
    cases s with
    | negative => rfl
    | positive => exact absurd h1 (worth_pos m e hm).le.not_gt
  | _ => rw [h2] at h1; exact absurd h1 (lt_irrefl 0)

theorem signBit_of_pos {x : Float32} (h1 : 0 < val x) : signBit x = false := by
  rw [val] at h1
  cases h2 : unpacked x with
  | finite s m e hm =>
    rw [h2] at h1
    rw [← Bool.not_eq_true, signBit_of_finite h2]
    rintro rfl
    exact absurd h1 (worth_neg m e hm).le.not_gt
  | _ => rw [h2] at h1; exact absurd h1 (lt_irrefl 0)

/-- The magnitude of `x` on the side of zero on which `y` lies. -/
theorem finite_copySign {x y : Float32} (hx : x.isFinite) :
    (copySign x y).isFinite ∧ val (copySign x y) = if signBit y then -|val x| else |val x| := by
  obtain ⟨h1, h2⟩ := finite_abs hx
  obtain ⟨h3, h4⟩ := finite_neg h1
  unfold copySign
  split
  · exact ⟨h3, by rw [h4, h2]⟩
  · exact ⟨h1, h2⟩

end Binary32
end HueSaturation
