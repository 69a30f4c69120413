import HueSaturation.Proofs.Number.Quotient

/-!
# Floats of the same value

Zero has two floats, every other number at most one. So two computations that agree in value agree
in every bit, up to the sign of zeros.

* `eq_of_val`       finite floats of one value other than zero are one float;
* `Plain`           the float is not the negative zero: sums with such a float are such floats;
* `Same k x y`      two finite floats of one value, which is at most `2 ^ k` in magnitude: sums and
                    products keep that;
* `special_cases`   there are three floats that are not finite, so
* `inUnit_unit`     what is cut down to `[0, 1]` is a number in it, whatever it was.
-/

namespace HueSaturation
namespace Binary32

open Float.Model
open Float.Model.UnpackedFloat

/-! ## one float for each value -/

theorem toNat_fields (b : BitVec Format.binary32.numBits) :
    b.toNat = 2 ^ 31 * (unpackSign b).toNat + 2 ^ 23 * (unpackExponent b).toNat
      + (unpackMantissa b).toNat := by
  have h1 : (unpackSign b).toNat = b.toNat / 2 ^ 31 % 2 := by
    simp [unpackSign, Nat.shiftRight_eq_div_pow]
  have h2 : (unpackExponent b).toNat = b.toNat / 2 ^ 23 % 2 ^ 8 := by
    simp [unpackExponent, Nat.shiftRight_eq_div_pow]
  have h3 : (unpackMantissa b).toNat = b.toNat % 2 ^ 23 := by
    simp [unpackMantissa]
  have h4 : b.toNat < 2 ^ 32 := b.isLt
  omega

theorem unpack_cases {b : BitVec Format.binary32.numBits}
    (h1 : (UnpackedFloat.unpack Format.binary32 b).isFinite) :
    (UnpackedFloat.unpack Format.binary32 b = .zero (Sign.ofBitVec (unpackSign b))
        ∧ (unpackExponent b).toNat = 0 ∧ (unpackMantissa b).toNat = 0)
      ∨ ∃ m e hm, UnpackedFloat.unpack Format.binary32 b
          = .finite (Sign.ofBitVec (unpackSign b)) m e hm
        ∧ ((unpackExponent b).toNat = 0 ∧ m = (unpackMantissa b).toNat ∧ e = -149
          ∨ (unpackExponent b).toNat ≠ 0 ∧ m = 2 ^ 23 + (unpackMantissa b).toNat
            ∧ e = (unpackExponent b).toNat - 150) := by
  have hbias : ((Format.binary32.exponentBias : ℤ)) = 127 := rfl
  have hmant : (unpackMantissa b).toNat < 2 ^ 23 := (unpackMantissa b).isLt
  unfold UnpackedFloat.unpack at h1 ⊢
  simp only [hbias, Nat.cast_ofNat] at h1 ⊢
  split at h1
  · split at h1 <;> simp [UnpackedFloat.isFinite] at h1
  · next hinf =>
    rw [if_neg hinf]
    split
    · next hsub =>
      have hsub' : (unpackExponent b).toNat = 0 := congrArg BitVec.toNat hsub
      split
      · next hz => exact .inl ⟨rfl, hsub', congrArg BitVec.toNat hz⟩
      · next hz =>
        have hpos : 0 < (unpackMantissa b).toNat :=
          Nat.pos_of_ne_zero fun h => hz (BitVec.eq_of_toNat_eq h)
        exact .inr ⟨_, _, hpos, rfl, .inl ⟨hsub', rfl, by omega⟩⟩
    · next hnorm =>
      have hnorm' : (unpackExponent b).toNat ≠ 0 := fun h => hnorm (BitVec.eq_of_toNat_eq h)
      have hm : (1#1 ++ unpackMantissa b).toNat = 2 ^ 23 + (unpackMantissa b).toNat := by
        rw [BitVec.toNat_append, ← Nat.shiftLeft_add_eq_or_of_lt hmant]
        rfl
      have hpos : 0 < (1#1 ++ unpackMantissa b).toNat := by omega
      exact .inr ⟨_, _, hpos, rfl, .inr ⟨hnorm', hm, by omega⟩⟩

theorem ofBitVec_inj {a b : BitVec 1} (h1 : Sign.ofBitVec a = Sign.ofBitVec b) : a = b := by
  have h2 : a.toNat < 2 := a.isLt
  have h3 : b.toNat < 2 := b.isLt
  have h4 : ∀ c : BitVec 1, Sign.ofBitVec c = .positive ↔ c.toNat = 0 := by
    intro c
    have h5 : c = 0#1 ↔ c.toNat = 0 := by rw [← BitVec.toNat_inj]; rfl
    rw [← h5, Sign.ofBitVec]
    split
    · next h => exact ⟨fun _ => h, fun _ => rfl⟩
    · next h => exact ⟨Sign.noConfusion, fun h6 => absurd h6 h⟩
  have h5 : a.toNat = 0 ↔ b.toNat = 0 := by rw [← h4, ← h4, h1]
  exact BitVec.eq_of_toNat_eq (by omega)

theorem unpacked_inj {x y : Float32} (hx : x.isFinite) (h1 : unpacked x = unpacked y) : x = y := by
  have hy : (unpacked y).isFinite := h1 ▸ hx
  have h2 : ∀ b c : BitVec Format.binary32.numBits,
      (UnpackedFloat.unpack Format.binary32 b).isFinite →
      UnpackedFloat.unpack Format.binary32 b = UnpackedFloat.unpack Format.binary32 c → b = c := by
    intro b c hb hbc
    have hc : (UnpackedFloat.unpack Format.binary32 c).isFinite := hbc ▸ hb
    have h3 : (unpackMantissa b).toNat < 2 ^ 23 := (unpackMantissa b).isLt
    have h4 : (unpackMantissa c).toNat < 2 ^ 23 := (unpackMantissa c).isLt
    apply BitVec.eq_of_toNat_eq
    rw [toNat_fields b, toNat_fields c]
    rcases unpack_cases hb with ⟨h5, h6, h7⟩ | ⟨m, e, hm, h5, h6⟩
    · rcases unpack_cases hc with ⟨h8, h9, h10⟩ | ⟨n, f, hn, h8, h9⟩
      · rw [h5, h8, UnpackedFloat.zero.injEq] at hbc
        rw [ofBitVec_inj hbc, h6, h7, h9, h10]
      · rw [h5, h8] at hbc
        cases hbc
    · rcases unpack_cases hc with ⟨h8, h9, h10⟩ | ⟨n, f, hn, h8, h9⟩
      · rw [h5, h8] at hbc
        cases hbc
      · rw [h5, h8, UnpackedFloat.finite.injEq] at hbc
        obtain ⟨h10, rfl, rfl⟩ := hbc
        rw [ofBitVec_inj h10]
        omega
  have h3 := h2 x.toModel.toBits.toBitVec y.toModel.toBits.toBitVec hx h1
  obtain ⟨⟨⟨b⟩, hb⟩⟩ := x
  obtain ⟨⟨⟨c⟩, hc⟩⟩ := y
  obtain rfl : b = c := h3
  rfl

theorem finite_inj {s t : Sign} {m n : ℕ} {e f : ℤ} {hm : 0 < m} {hn : 0 < n} (h1 : m < 2 ^ 24)
    (h2 : -149 ≤ e) (h3 : 2 ^ 23 ≤ m ∨ e = -149) (h4 : n < 2 ^ 24) (h5 : -149 ≤ f)
    (h6 : 2 ^ 23 ≤ n ∨ f = -149) (h7 : worth (.finite s m e hm) = worth (.finite t n f hn)) :
    UnpackedFloat.finite s m e hm = .finite t n f hn := by
  have h8 : (m : ℚ) * 2 ^ e = n * 2 ^ f := by
    rw [← abs_worth s m e hm, ← abs_worth t n f hn, h7]
  have h9 := compare_magnitudes h1 h2 h3 h4 h5 h6
  rw [compare_eq_iff_eq.2 h8, Ordering.then_eq_eq, compare_eq_iff_eq, compare_eq_iff_eq] at h9
  obtain ⟨rfl, rfl⟩ := h9
  have h10 : s = t := by
    have h11 := worth_pos m e hm
    have h12 := worth_neg m e hm
    cases s <;> cases t
    · rfl
    · linarith
    · linarith
    · rfl
  rw [h10]

/-- Finite floats of one value other than zero are one float. -/
theorem eq_of_val {x y : Float32} (hx : x.isFinite) (hy : y.isFinite) (h1 : val x = val y)
    (h2 : val x ≠ 0) : x = y := by
  have h3 := (unpacked_canonical hx).1
  have h4 := (unpacked_canonical hy).1
  have h5 : worth (unpacked x) = worth (unpacked y) := h1
  have h6 : worth (unpacked x) ≠ 0 := h2
  refine unpacked_inj hx ?_
  generalize unpacked x = u at h3 h5 h6
  generalize unpacked y = v at h4 h5
  cases h3 with
  | zero s => exact absurd rfl h6
  | finite s m e hm h7 h8 h9 =>
    cases h4 with
    | zero t => exact absurd h5 h6
    | finite t n f hn h10 h11 h12 =>
      exact finite_inj h7 h8 h9 h10 h11 h12 h5

theorem unpacked_of_val_zero {x : Float32} (hx : x.isFinite) (h1 : val x = 0) :
    ∃ s, unpacked x = .zero s := by
  have h2 := (unpacked_canonical hx).1
  rw [val] at h1
  generalize unpacked x = u at h1 h2
  cases h2 with
  | zero s => exact ⟨s, rfl⟩
  | finite s m e hm h3 h4 h5 =>
    cases s
    · exact absurd h1 (worth_neg m e hm).ne
    · exact absurd h1 (worth_pos m e hm).ne'

theorem zero_cases {x : Float32} (hx : x.isFinite) (h1 : val x = 0) : x = 0.0 ∨ x = -0.0 := by
  obtain ⟨s, hs⟩ := unpacked_of_val_zero hx h1
  cases s with
  | negative => exact .inr (unpacked_inj hx hs)
  | positive => exact .inl (unpacked_inj hx hs)

/-- Rounding a whole float gives the same float, the sign of zero included. -/
theorem round_of_whole {x : Float32} (hx : x.isFinite) {n : ℤ} (h1 : val x = n) : round x = x := by
  obtain ⟨h2, h3⟩ := finite_round hx
  rw [h1, away_intCast, ← h1] at h3
  by_cases h4 : val x = 0
  · rcases zero_cases hx h4 with rfl | rfl
    · decide +kernel
    · decide +kernel
  · exact (eq_of_val hx h2 h3.symm h4).symm

/-! ## zeros -/

theorem rnd_val {x : Float32} (hx : x.isFinite) : rnd (val x) = val x :=
  rnd_worth (unpacked_canonical hx).1

theorem val_zero : val 0.0 = 0 := rfl

theorem val_neg_zero : val (-0.0) = 0 := rfl

theorem add_zero_right {x y : Float32} (hx : x.isFinite) (hy : y.isFinite) (h1 : val y = 0) :
    (x + y).isFinite ∧ val (x + y) = val x := by
  have h2 := rounds_add hx hy
  rw [h1, add_zero] at h2
  exact h2.exact (rnd_val hx) (unpacked_canonical hx).2

theorem add_zero_left {x y : Float32} (hx : x.isFinite) (hy : y.isFinite) (h1 : val x = 0) :
    (x + y).isFinite ∧ val (x + y) = val y := by
  have h2 := rounds_add hx hy
  rw [h1, zero_add] at h2
  exact h2.exact (rnd_val hy) (unpacked_canonical hy).2

theorem unpacked_mul_swap (u v : UnpackedFloat) :
    UnpackedFloat.mul Format.binary32 u v = UnpackedFloat.mul Format.binary32 v u := by
  have hsign : ∀ s t : Sign, s * t = t * s := by
    intro s t
    cases s <;> cases t <;> rfl
  cases u <;> cases v <;> simp only [UnpackedFloat.mul, hsign, Nat.mul_comm, Int.add_comm]

theorem mul_swap (x y : Float32) : x * y = y * x := by
  show Float32.ofModel (.pack (UnpackedFloat.mul Format.binary32 (unpacked x) (unpacked y)))
    = .ofModel (.pack (UnpackedFloat.mul Format.binary32 (unpacked y) (unpacked x)))
  rw [unpacked_mul_swap]

theorem mul_zero_right {x y : Float32} (hx : x.isFinite) (hy : y.isFinite) (h1 : val y = 0) :
    (x * y).isFinite ∧ val (x * y) = 0 := by
  have h2 := rounds_mul hx hy
  rw [h1, mul_zero] at h2
  exact h2.exact rnd_zero (by norm_num)

theorem mul_zero_left {x y : Float32} (hx : x.isFinite) (hy : y.isFinite) (h1 : val x = 0) :
    (x * y).isFinite ∧ val (x * y) = 0 := by
  rw [mul_swap]
  exact mul_zero_right hy hx h1

theorem mul_one_right {x y : Float32} (hx : x.isFinite) (hy : y.isFinite) (h1 : val y = 1) :
    (x * y).isFinite ∧ val (x * y) = val x := by
  have h2 := rounds_mul hx hy
  rw [h1, mul_one] at h2
  exact h2.exact (rnd_val hx) (unpacked_canonical hx).2

theorem mul_one_left {x y : Float32} (hx : x.isFinite) (hy : y.isFinite) (h1 : val x = 1) :
    (x * y).isFinite ∧ val (x * y) = val y := by
  rw [mul_swap]
  exact mul_one_right hy hx h1

theorem sub_self_val {x y : Float32} (hx : x.isFinite) (hy : y.isFinite) (h1 : val x = val y) :
    (x - y).isFinite ∧ val (x - y) = 0 := by
  have h2 := rounds_sub hx hy
  rw [h1, sub_self] at h2
  exact h2.exact rnd_zero (by norm_num)

/-- A sum is zero only if it is exactly zero. -/
theorem add_eq_zero_of_rnd {x y : Float32} (hx : x.isFinite) (hy : y.isFinite)
    (h1 : rnd (val x + val y) = 0) : val x + val y = 0 := by
  obtain ⟨m, e, -, h2, h3⟩ := exists_bits (unpacked_canonical hx).1
  obtain ⟨n, f, -, h4, h5⟩ := exists_bits (unpacked_canonical hy).1
  change val x = m * 2 ^ e at h3
  change val y = n * 2 ^ f at h5
  by_contra hne
  -- both are multiples of the least float
  have hmul : ∀ i g : ℤ, -149 ≤ g → ∃ j : ℤ, (i : ℚ) * 2 ^ g = j * 2 ^ (-149 : ℤ) := by
    intro i g hg
    refine ⟨i * 2 ^ (g + 149).toNat, ?_⟩
    push_cast
    rw [mul_assoc, two_pow_mul]
    congr 2
    omega
  obtain ⟨i, hi⟩ := hmul m e h2
  obtain ⟨j, hj⟩ := hmul n f h4
  have hsum : val x + val y = ((i + j : ℤ) : ℚ) * 2 ^ (-149 : ℤ) := by
    rw [h3, h5, hi, hj]
    push_cast
    ring
  have hij : i + j ≠ 0 := by
    intro h
    rw [hsum, h, Int.cast_zero, zero_mul] at hne
    exact hne rfl
  have hbig : ∀ l : ℤ, 0 < l → rnd ((l : ℚ) * 2 ^ (-149 : ℤ)) ≠ 0 := by
    intro l hl
    have h6 : (1 : ℚ) ≤ l := by exact_mod_cast hl
    have h7 : (2 : ℚ) ^ (-149 : ℤ) ≤ l * 2 ^ (-149 : ℤ) := le_mul_of_one_le_left (by positivity) h6
    exact (lt_of_lt_of_le (by positivity) (le_rnd h7 le_rfl)).ne'
  rw [hsum] at h1
  rcases lt_or_gt_of_ne hij with h | h
  · refine hbig (-(i + j)) (by omega) ?_
    rw [Int.cast_neg, neg_mul, rnd_neg, h1, neg_zero]
  · exact hbig (i + j) h h1

theorem add_neg_self {x : Float32} (hx : x.isFinite) (h1 : val x ≠ 0) : x + -x = 0.0 := by
  have h2 := (unpacked_canonical hx).1
  have h3 : unpacked (-x) = (unpacked x).neg := by
    obtain ⟨h3, h4⟩ := unpacked_canonical hx
    obtain ⟨h5, h6⟩ := canonical_neg h3
    have h7 : |worth (unpacked x).neg| < 2 ^ 128 := by rw [h6, abs_neg]; exact h4
    exact unpacked_pack h5 h7
  show Float32.ofModel (.pack (UnpackedFloat.add Format.binary32 (unpacked x) (unpacked (-x))))
    = 0.0
  rw [h3]
  rw [val] at h1
  generalize unpacked x = u at h1 h2
  cases h2 with
  | zero s => exact absurd rfl h1
  | finite s m e hm h4 h5 h6 =>
    have h7 : UnpackedFloat.add Format.binary32 (.finite s m e hm)
        (UnpackedFloat.finite s m e hm).neg = .zero .positive := by
      simp only [UnpackedFloat.neg, UnpackedFloat.add, apply_neg, Int.add_right_neg]
      rfl
    rw [h7]
    rfl

/-- The float is finite and not the negative zero. -/
def Plain (x : Float32) : Prop :=
  x.isFinite ∧ x ≠ -0.0

theorem plain_of_val {x : Float32} (hx : x.isFinite) (h1 : val x ≠ 0) : Plain x :=
  ⟨hx, fun h => h1 (h ▸ val_neg_zero)⟩

theorem plain_zero : Plain 0.0 :=
  ⟨rfl, by decide +kernel⟩

/-- Floats of one value are one float if neither is the negative zero. -/
theorem Plain.eq {x y : Float32} (hx : Plain x) (hy : Plain y) (h1 : val x = val y) : x = y := by
  by_cases h2 : val x = 0
  · rcases zero_cases hx.1 h2 with h | h
    · rcases zero_cases hy.1 (h1 ▸ h2) with h' | h'
      · rw [h, h']
      · exact absurd h' hy.2
    · exact absurd h hx.2
  · exact eq_of_val hx.1 hy.1 h1 h2

/-- Where one summand is not the negative zero the sum is not. -/
theorem plain_add {x y : Float32} (hx : x.isFinite) (hy : y.isFinite) (h1 : Plain x ∨ Plain y)
    (h2 : (x + y).isFinite) (h3 : val (x + y) = rnd (val x + val y)) : Plain (x + y) := by
  by_cases h4 : val (x + y) = 0
  swap
  · exact plain_of_val h2 h4
  by_cases hx0 : val x = 0
  · have hy0 : val y = 0 := by rw [← (add_zero_left hx hy hx0).2, h4]
    rcases zero_cases hx hx0 with rfl | rfl <;> rcases zero_cases hy hy0 with rfl | rfl
    · exact ⟨h2, by decide +kernel⟩
    · exact ⟨h2, by decide +kernel⟩
    · exact ⟨h2, by decide +kernel⟩
    · rcases h1 with h | h <;> exact absurd rfl h.2
  · -- opposite numbers
    have h5 : val y = -val x := by
      have := add_eq_zero_of_rnd hx hy (h3.symm.trans h4)
      linarith
    obtain ⟨h6, h7⟩ := finite_neg hx
    have h8 : y = -x := eq_of_val hy h6 (h5.trans h7.symm) (by rw [h5]; exact neg_ne_zero.2 hx0)
    rw [h8, add_neg_self hx hx0]
    exact plain_zero

theorem mul_zero_of_pos {x : Float32} (hx : x.isFinite) (h1 : 0 < val x) : x * 0.0 = 0.0 := by
  have h2 := (unpacked_canonical hx).1
  have hzero : unpacked (0.0 : Float32) = .zero .positive := rfl
  show Float32.ofModel (.pack (UnpackedFloat.mul Format.binary32 (unpacked x) (unpacked 0.0))) = 0.0
  rw [hzero]
  rw [val] at h1
  generalize unpacked x = u at h1 h2
  cases h2 with
  | zero s => exact absurd rfl h1.ne
  | finite s m e hm h3 h4 h5 =>
    cases s with
    | negative => exact absurd (worth_neg m e hm) h1.not_gt
    | positive => rfl

/-- A product of positive floats is not the negative zero, even where it is too small for a float.
-/
theorem plain_mul {x y : Float32} (hx : x.isFinite) (hy : y.isFinite) (h1 : 0 < val x)
    (h2 : 0 < val y) (h3 : |rnd (val x * val y)| < 2 ^ 128) : Plain (x * y) := by
  have hround := mul_canonical (unpacked_canonical hx).1 (unpacked_canonical hy).1
  have hu : unpacked (x * y) = UnpackedFloat.mul Format.binary32 (unpacked x) (unpacked y) :=
    unpacked_pack hround.1 (lt_of_eq_of_lt (congrArg (|·|) hround.2) h3)
  refine ⟨((rounds_mul hx hy).finite h3).1, fun h => ?_⟩
  have hneg : unpacked (x * y) = .zero .negative := by
    rw [h]
    rfl
  rw [hu] at hneg
  have hcx := (unpacked_canonical hx).1
  have hcy := (unpacked_canonical hy).1
  rw [val] at h1 h2
  generalize unpacked x = u at h1 hcx hneg
  generalize unpacked y = v at h2 hcy hneg
  cases hcx with
  | zero s => exact absurd rfl h1.ne
  | finite s m e hm h4 h5 h6 =>
    cases hcy with
    | zero t => exact absurd rfl h2.ne
    | finite t n f hn h7 h8 h9 =>
      have h10 := roundWithAccuracy_signed (s * t) (holds_exact (m * n)) le_rfl (lt_add_one _)
        (Nat.cast_pos.2 (Nat.mul_pos hm hn)) (mul_exponent_le hm hn h6 h9)
      have h11 : Signed (s * t) (rnd ((m * n : ℕ) * 2 ^ (e + f))) (.zero .negative) := by
        rw [← hneg]
        exact h10
      have h12 : s = .positive := by
        cases s with
        | positive => rfl
        | negative => exact absurd (worth_neg m e hm) h1.not_gt
      have h13 : t = .positive := by
        cases t with
        | positive => rfl
        | negative => exact absurd (worth_neg n f hn) h2.not_gt
      rw [h12, h13] at h11
      cases h11

/-! ## floats of the same value -/

/-- Finite floats of one value, of magnitude up to `2 ^ k`. -/
structure Same (k : ℕ) (x y : Float32) : Prop where
  left : x.isFinite
  right : y.isFinite
  val_eq : val x = val y
  le : |val x| ≤ 2 ^ k

section
variable {j k : ℕ} {x y z u v : Float32}

theorem Same.symm (h1 : Same k x y) : Same k y x :=
  ⟨h1.right, h1.left, h1.val_eq.symm, h1.val_eq ▸ h1.le⟩

theorem Same.trans (h1 : Same k x y) (h2 : Same j y z) : Same k x z :=
  ⟨h1.left, h2.right, h1.val_eq.trans h2.val_eq, h1.le⟩

theorem Same.mono (h1 : Same j x y) (h2 : j ≤ k) : Same k x y :=
  ⟨h1.left, h1.right, h1.val_eq, h1.le.trans (pow_le_pow_right₀ (by norm_num) h2)⟩

theorem Same.refl (hx : x.isFinite) (h1 : |val x| ≤ 2 ^ k) : Same k x x :=
  ⟨hx, hx, rfl, h1⟩

/-- Of two results that are nearest to one number within `2 ^ k`. -/
theorem same_of_rounds {p q : ℚ} (h1 : Rounds x p) (h2 : Rounds y q) (h3 : p = q)
    (h4 : |p| ≤ 2 ^ k) (h5 : k ≤ 127) : Same k x y := by
  have h6 : |p| ≤ 2 ^ (k : ℤ) := by rw [zpow_natCast]; exact h4
  obtain ⟨h7, h8, h9⟩ := h1.within h6 (by omega) (by omega)
  obtain ⟨h10, h11, -⟩ := h2.within (h3 ▸ h6) (by omega) (by omega)
  rw [zpow_natCast] at h9
  exact ⟨h7, h10, by rw [h8, h11, h3], h9⟩

theorem Same.sum_le (h1 : Same k x y) (h2 : Same k u v) :
    |val x + val u| ≤ 2 ^ (k + 1) ∧ |val x - val u| ≤ 2 ^ (k + 1) := by
  have h3 : (2 : ℚ) ^ (k + 1) = 2 ^ k + 2 ^ k := by ring
  rw [h3]
  exact ⟨(abs_add_le _ _).trans (add_le_add h1.le h2.le),
    (abs_sub _ _).trans (add_le_add h1.le h2.le)⟩

theorem Same.product_le (h1 : Same j x y) (h2 : Same k u v) : |val x * val u| ≤ 2 ^ (j + k) := by
  rw [abs_mul, pow_add]
  exact mul_le_mul h1.le h2.le (abs_nonneg _) (by positivity)

theorem Same.add (h1 : Same k x y) (h2 : Same k u v) (h3 : k ≤ 126) :
    Same (k + 1) (x + u) (y + v) :=
  same_of_rounds (rounds_add h1.left h2.left) (rounds_add h1.right h2.right)
    (by rw [h1.val_eq, h2.val_eq]) (h1.sum_le h2).1 (by omega)

theorem Same.sub (h1 : Same k x y) (h2 : Same k u v) (h3 : k ≤ 126) :
    Same (k + 1) (x - u) (y - v) :=
  same_of_rounds (rounds_sub h1.left h2.left) (rounds_sub h1.right h2.right)
    (by rw [h1.val_eq, h2.val_eq]) (h1.sum_le h2).2 (by omega)

theorem Same.mul (h1 : Same j x y) (h2 : Same k u v) (h3 : j + k ≤ 127) :
    Same (j + k) (x * u) (y * v) :=
  same_of_rounds (rounds_mul h1.left h2.left) (rounds_mul h1.right h2.right)
    (by rw [h1.val_eq, h2.val_eq]) (h1.product_le h2) h3

theorem Rounds.val_eq {p : ℚ} (h1 : Rounds x p) (h2 : |p| ≤ 2 ^ k) (h3 : k ≤ 127) :
    val x = rnd p := by
  have h4 : |p| ≤ 2 ^ (k : ℤ) := by rw [zpow_natCast]; exact h2
  exact (h1.within h4 (by omega) (by omega)).2.1

theorem Same.val_add (h1 : Same k x y) (h2 : Same k u v) (h3 : k ≤ 126) :
    val (x + u) = rnd (val x + val u) :=
  (rounds_add h1.left h2.left).val_eq (h1.sum_le h2).1 (by omega)

theorem Same.val_sub (h1 : Same k x y) (h2 : Same k u v) (h3 : k ≤ 126) :
    val (x - u) = rnd (val x - val u) :=
  (rounds_sub h1.left h2.left).val_eq (h1.sum_le h2).2 (by omega)

theorem Same.val_mul (h1 : Same j x y) (h2 : Same k u v) (h3 : j + k ≤ 127) :
    val (x * u) = rnd (val x * val u) :=
  (rounds_mul h1.left h2.left).val_eq (h1.product_le h2) h3

theorem Same.add_zero (h1 : Same k x z) (h2 : Same 0 y 0.0) : Same k (x + y) z := by
  obtain ⟨h3, h4⟩ := add_zero_right h1.left h2.left h2.val_eq
  exact ⟨h3, h1.right, h4.trans h1.val_eq, by rw [h4]; exact h1.le⟩

theorem Same.zero_add (h1 : Same 0 x 0.0) (h2 : Same k y z) : Same k (x + y) z := by
  obtain ⟨h3, h4⟩ := add_zero_left h1.left h2.left h1.val_eq
  exact ⟨h3, h2.right, h4.trans h2.val_eq, by rw [h4]; exact h2.le⟩

theorem Same.zero_mul (h1 : Same 0 x 0.0) (h2 : Same k y z) : Same 0 (x * y) 0.0 := by
  obtain ⟨h3, h4⟩ := mul_zero_left h1.left h2.left h1.val_eq
  exact ⟨h3, h1.right, h4, by rw [h4, abs_zero]; norm_num⟩

theorem Same.mul_zero (h1 : Same k x y) (h2 : Same 0 z 0.0) : Same 0 (x * z) 0.0 := by
  obtain ⟨h3, h4⟩ := mul_zero_right h1.left h2.left h2.val_eq
  exact ⟨h3, h2.right, h4, by rw [h4, abs_zero]; norm_num⟩

theorem Same.sub_self (h1 : Same k x y) : Same 0 (x - y) 0.0 := by
  obtain ⟨h2, h3⟩ := sub_self_val h1.left h1.right h1.val_eq
  exact ⟨h2, rfl, h3, by rw [h3, abs_zero]; norm_num⟩

theorem Same.one_mul (h1 : Same 0 x 1.0) (h2 : Same k y z) : Same k (x * y) z := by
  obtain ⟨h3, h4⟩ := mul_one_left h1.left h2.left (h1.val_eq.trans finite_literal_one.2)
  exact ⟨h3, h2.right, h4.trans h2.val_eq, by rw [h4]; exact h2.le⟩

theorem Same.plain_add (h1 : Same k x z) (h2 : Same k y v) (h3 : k ≤ 126) (h4 : Plain x ∨ Plain y) :
    Plain (x + y) :=
  Binary32.plain_add h1.left h2.left h4 (h1.add h2 h3).left (h1.val_add h2 h3)

theorem Same.beq (h1 : Same k x y) : x == y :=
  (beq_iff h1.left h1.right).2 h1.val_eq

theorem Same.eq_of_plain (h1 : Same k x y) (hx : Plain x) (hy : Plain y) : x = y :=
  hx.eq hy h1.val_eq

end

/-! ## ranges -/

theorem exponent_of_not_finite {b : BitVec Format.binary32.numBits}
    (h1 : ¬ (UnpackedFloat.unpack Format.binary32 b).isFinite) : unpackExponent b = -1#8 := by
  by_contra h
  refine h1 ?_
  unfold UnpackedFloat.unpack
  rw [if_neg h]
  split
  · split <;> rfl
  · rfl

theorem special_cases {x : Float32} (h1 : ¬ x.isFinite) :
    x = 0.0 / 0.0 ∨ x = 1.0 / 0.0 ∨ x = -1.0 / 0.0 := by
  have hbits : ∀ y : Float32, x.toModel.toBits.toBitVec = y.toModel.toBits.toBitVec → x = y := by
    intro y h
    obtain ⟨⟨⟨b⟩, hb⟩⟩ := x
    obtain ⟨⟨⟨c⟩, hc⟩⟩ := y
    obtain rfl : b = c := h
    rfl
  have hvalid := x.toModel.valid.eq_packedNaN
  obtain ⟨b, hb⟩ : ∃ b : BitVec Format.binary32.numBits, b = x.toModel.toBits.toBitVec := ⟨_, rfl⟩
  have h2 : unpackExponent b = -1#8 := exponent_of_not_finite (by rw [hb]; exact h1)
  have h3 := toNat_fields b
  rw [← hb] at hvalid hbits
  by_cases hm : unpackMantissa b = 0#23
  · right
    have h4 : (unpackSign b).toNat < 2 := (unpackSign b).isLt
    rw [h2, hm] at h3
    rcases Nat.lt_succ_iff_lt_or_eq.1 h4 with h5 | h5
    · left
      refine hbits _ (BitVec.eq_of_toNat_eq ?_)
      rw [h3, Nat.lt_one_iff.1 h5]
      decide +kernel
    · right
      refine hbits _ (BitVec.eq_of_toNat_eq ?_)
      rw [h3, h5]
      decide +kernel
  · left
    refine hbits _ ((hvalid h2 hm).trans ?_)
    decide +kernel

theorem isNaN_of_finite {x : Float32} (hx : x.isFinite) : Scalar.isNaN x = false := by
  have h1 : (unpacked x).isFinite := hx
  show (unpacked x).isNaN = false
  generalize unpacked x = u at h1
  cases u with
  | notANumber => cases h1
  | _ => rfl

theorem zero_of_beq {x : Float32} (h1 : x == 0.0) : x = 0.0 ∨ x = -0.0 := by
  by_cases hx : x.isFinite
  · exact zero_cases hx ((beq_iff hx rfl).1 h1)
  · rcases special_cases hx with rfl | rfl | rfl
    · exact absurd h1 (by decide +kernel)
    · exact absurd h1 (by decide +kernel)
    · exact absurd h1 (by decide +kernel)

/-- The number is in `[0, 1]`. -/
def InUnit (x : Float32) : Prop :=
  x.isFinite ∧ 0 ≤ val x ∧ val x ≤ 1

theorem val_one : val 1.0 = 1 :=
  finite_literal_one.2

theorem inUnit_zero : InUnit 0.0 :=
  ⟨rfl, le_rfl, zero_le_one⟩

theorem inUnit_one : InUnit 1.0 :=
  ⟨finite_literal_one.1, by rw [val_one]; norm_num, val_one.le⟩

theorem sixteenth_le {x : Float32} (hx : x.isFinite) (h1 : (0.0625 : Float32) ≤ x) :
    1 / 16 ≤ val x := by
  have h2 : unpacked (0.0625 : Float32) = .finite .positive 8388608 (-27) (by decide) := rfl
  have h3 : val 0.0625 = 1 / 16 := by
    rw [val, h2, worth]
    norm_num [Sign.apply]
  rw [← h3]
  exact (le_iff rfl hx).1 h1

theorem InUnit.same {x : Float32} (hx : InUnit x) : Same 0 x x :=
  .refl hx.1 (by rw [pow_zero, abs_of_nonneg hx.2.1]; exact hx.2.2)

theorem unit_of_finite {x : Float32} (hx : x.isFinite) :
    Scalar.unit x = Scalar.clamp 0.0 1.0 x := by
  rw [Scalar.unit, isNaN_of_finite hx]
  rfl

theorem val_unit {x : Float32} (hx : x.isFinite) :
    (Scalar.unit x).isFinite ∧ val (Scalar.unit x) = max 0 (min 1 (val x)) := by
  have h1 := @finite_clamp 0.0 1.0 x rfl finite_literal_one.1 hx
    (by rw [val_zero, val_one]; norm_num)
  rw [val_zero, val_one, ← unit_of_finite hx] at h1
  exact h1

/-- What is cut down to `[0, 1]` is a number in it, whatever it was before. -/
theorem inUnit_unit (x : Float32) : InUnit (Scalar.unit x) := by
  by_cases hx : x.isFinite
  · obtain ⟨h1, h2⟩ := val_unit hx
    rw [InUnit, h2]
    exact ⟨h1, le_max_left _ _, max_le zero_le_one (min_le_left _ _)⟩
  · have h1 : Scalar.unit x = 0.0 ∨ Scalar.unit x = 1.0 := by
      rcases special_cases hx with rfl | rfl | rfl
      · decide +kernel
      · decide +kernel
      · decide +kernel
    rcases h1 with h | h
    · rw [h]
      exact inUnit_zero
    · rw [h]
      exact inUnit_one

theorem unit_of_inUnit {x : Float32} (hx : InUnit x) : Scalar.unit x = x := by
  rw [unit_of_finite hx.1]
  exact clamp_of_between rfl finite_literal_one.1 hx.1 (by rw [val_zero]; exact hx.2.1)
    (by rw [val_one]; exact hx.2.2)

theorem plain_unit {x : Float32} (hx : Plain x) : Plain (Scalar.unit x) := by
  rw [unit_of_finite hx.1, Scalar.clamp]
  split
  · exact plain_zero
  · split
    · exact plain_of_val finite_literal_one.1 (by rw [val_one]; norm_num)
    · exact hx

theorem Same.unit {k : ℕ} {x y : Float32} (h1 : Same k x y) :
    Same 0 (Scalar.unit x) (Scalar.unit y) := by
  obtain ⟨h2, h3⟩ := val_unit h1.left
  obtain ⟨h4, h5⟩ := val_unit h1.right
  have h6 := inUnit_unit x
  exact ⟨h2, h4, by rw [h3, h5, h1.val_eq], h6.same.le⟩

/-- Of the floats that are not finite only infinity is above a finite one. -/
theorem eq_infinity_of_le {x y : Float32} (hx : x.isFinite) (hy : ¬ y.isFinite) (h1 : x ≤ y) :
    y = 1.0 / 0.0 := by
  have h2 := (unpacked_canonical hx).1
  have h3 : UnpackedFloat.le (unpacked x) (unpacked y) = true := of_decide_eq_true h1
  generalize unpacked x = u at h2 h3
  rcases special_cases hy with rfl | rfl | rfl
  · cases h2 <;> cases h3
  · rfl
  · cases h2 <;> cases h3

theorem eq_neg_infinity_of_le {x y : Float32} (hx : ¬ x.isFinite) (hy : y.isFinite) (h1 : x ≤ y) :
    x = -1.0 / 0.0 := by
  have h2 := (unpacked_canonical hy).1
  have h3 : UnpackedFloat.le (unpacked x) (unpacked y) = true := of_decide_eq_true h1
  generalize unpacked y = u at h2 h3
  rcases special_cases hx with rfl | rfl | rfl
  · cases h2 <;> cases h3
  · cases h2 <;> cases h3
  · rfl

/-- What compares as a number between finite ones is finite. -/
theorem finite_of_within {lo hi x : Float32} (h1 : lo.isFinite) (h2 : hi.isFinite)
    (h3 : Scalar.within lo hi x) : x.isFinite ∧ val lo ≤ val x ∧ val x ≤ val hi := by
  obtain ⟨h4, h5⟩ : lo ≤ x ∧ x ≤ hi := Bool.and_eq_true_iff.1 h3
  have hx : x.isFinite := by
    by_contra hx
    have h6 : (1.0 / 0.0 : Float32) = -1.0 / 0.0 :=
      (eq_infinity_of_le h1 hx h4).symm.trans (eq_neg_infinity_of_le hx h2 h5)
    exact absurd h6 (by decide +kernel)
  exact ⟨hx, (le_iff h1 hx).1 h4, (le_iff hx h2).1 h5⟩

/-- A number that compares as one in `[0, 1]` is one. -/
theorem inUnit_of_within {x : Float32} (h1 : Scalar.within 0.0 1.0 x) : InUnit x := by
  obtain ⟨h2, h3, h4⟩ := finite_of_within rfl finite_literal_one.1 h1
  rw [val_zero] at h3
  rw [val_one] at h4
  exact ⟨h2, h3, h4⟩

theorem inUnit_half : InUnit 0.5 :=
  inUnit_of_within (by decide +kernel)

end Binary32
end HueSaturation
