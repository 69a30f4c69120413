import HueSaturation.Color.Effect
import HueSaturation.Proofs.Number.Same

/-!
# Colors and matrices of the same value

Over floats the identity matrix is neutral in value, and so are all steps that only change the sign
of a zero. What is added to a float other than the negative zero never is the negative zero: where
the constants of a matrix are such floats, so is every channel that it makes, and channels of the
same value are the same float.

* `Rgb.InUnit`, `Rgb.Same`, `Rgb.Plain`   colors in the unit cube, of the same value, without
  negative zeros;
* `Row.Same`, `ColorMatrix.Same`   coefficients of the same value;
* `ColorMatrix.identity_mul`, `mul_identity`   the identity is neutral in value;
* `ColorMatrix.Sound`              no constant is the negative zero, and the last row is that of the
                                   identity: products keep that;
* `ColorMatrix.isIdentity_iff`     the values say whether a matrix is the identity.
-/

namespace HueSaturation

open Binary32 (val)

variable {j k : ℕ}

namespace Rgb

/-- Every channel is a number in `[0, 1]`. -/
structure InUnit (p : Rgb Float32) : Prop where
  r : Binary32.InUnit p.r
  g : Binary32.InUnit p.g
  b : Binary32.InUnit p.b

/-- The channels have the same values, up to `2 ^ k` in magnitude. -/
structure Same (k : ℕ) (p q : Rgb Float32) : Prop where
  r : Binary32.Same k p.r q.r
  g : Binary32.Same k p.g q.g
  b : Binary32.Same k p.b q.b

/-- No channel is the negative zero. -/
structure Plain (p : Rgb Float32) : Prop where
  r : Binary32.Plain p.r
  g : Binary32.Plain p.g
  b : Binary32.Plain p.b

variable {p q s : Rgb Float32}

theorem InUnit.same (hp : p.InUnit) : p.Same 0 p :=
  ⟨hp.r.same, hp.g.same, hp.b.same⟩

theorem inUnit_unit (p : Rgb Float32) : p.unit.InUnit :=
  ⟨Binary32.inUnit_unit p.r, Binary32.inUnit_unit p.g, Binary32.inUnit_unit p.b⟩

theorem unit_of_inUnit (hp : p.InUnit) : p.unit = p := by
  cases p
  simp only [Rgb.unit, Rgb.map, Binary32.unit_of_inUnit hp.r, Binary32.unit_of_inUnit hp.g,
    Binary32.unit_of_inUnit hp.b]

theorem Same.symm (h1 : p.Same k q) : q.Same k p :=
  ⟨h1.r.symm, h1.g.symm, h1.b.symm⟩

theorem Same.trans (h1 : p.Same k q) (h2 : q.Same j s) : p.Same k s :=
  ⟨h1.r.trans h2.r, h1.g.trans h2.g, h1.b.trans h2.b⟩

theorem Same.unit (h1 : p.Same k q) : p.unit.Same 0 q.unit :=
  ⟨h1.r.unit, h1.g.unit, h1.b.unit⟩

theorem Plain.unit (h1 : p.Plain) : p.unit.Plain :=
  ⟨Binary32.plain_unit h1.r, Binary32.plain_unit h1.g, Binary32.plain_unit h1.b⟩

theorem Same.eq_of_plain (h1 : p.Same k q) (hp : p.Plain) (hq : q.Plain) : p = q := by
  cases p
  cases q
  simp only [Rgb.mk.injEq]
  exact ⟨h1.r.eq_of_plain hp.r hq.r, h1.g.eq_of_plain hp.g hq.g, h1.b.eq_of_plain hp.b hq.b⟩

theorem Same.beq (h1 : p.Same k q) : p == q := by
  show (p.r == q.r && (p.g == q.g && p.b == q.b)) = true
  rw [h1.r.beq, h1.g.beq, h1.b.beq]
  rfl

end Rgb

/-! ## rows -/

namespace Row

/-- The coefficients have the same values, up to `2 ^ k` in magnitude. -/
structure Same (k : ℕ) (u v : Row Float32) : Prop where
  r : Binary32.Same k u.r v.r
  g : Binary32.Same k u.g v.g
  b : Binary32.Same k u.b v.b
  c : Binary32.Same k u.c v.c

variable {u u' v v' w : Row Float32} {p q : Rgb Float32}

theorem Same.symm (h1 : u.Same k v) : v.Same k u :=
  ⟨h1.r.symm, h1.g.symm, h1.b.symm, h1.c.symm⟩

theorem Same.trans (h1 : u.Same k v) (h2 : v.Same j w) : u.Same k w :=
  ⟨h1.r.trans h2.r, h1.g.trans h2.g, h1.b.trans h2.b, h1.c.trans h2.c⟩

theorem Same.mono (h1 : u.Same j v) (h2 : j ≤ k) : u.Same k v :=
  ⟨h1.r.mono h2, h1.g.mono h2, h1.b.mono h2, h1.c.mono h2⟩

theorem Same.dot (h1 : u.Same j u') (h2 : v.Same k v') (h3 : j + k ≤ 124) :
    Binary32.Same (j + k + 3) (u.dot v) (u'.dot v') := by
  have hr := h1.r.mul h2.r (by omega)
  have hg := h1.g.mul h2.g (by omega)
  have hb := h1.b.mul h2.b (by omega)
  have hc := h1.c.mul h2.c (by omega)
  have hrg := hr.add hg (by omega)
  have hrgb := hrg.add (hb.mono (by omega)) (by omega)
  exact hrgb.add (hc.mono (by omega)) (by omega)

theorem Same.eval (h1 : u.Same k v) (h2 : p.Same 0 q) (h3 : k ≤ 124) :
    Binary32.Same (k + 3) (u.eval p) (v.eval q) := by
  have hr := h1.r.mul h2.r (by omega)
  have hg := h1.g.mul h2.g (by omega)
  have hb := h1.b.mul h2.b (by omega)
  have hrg := hr.add hg (by omega)
  have hrgb := hrg.add (hb.mono (by omega)) (by omega)
  exact hrgb.add (h1.c.mono (by omega)) (by omega)

/-- In value a scalar product does not depend on the order of its rows. -/
theorem dot_comm (h1 : u.Same j u) (h2 : v.Same k v) (h3 : j + k ≤ 124) :
    Binary32.Same (j + k + 3) (u.dot v) (v.dot u) := by
  have hmul : ∀ {x y : Float32}, Binary32.Same j x x → Binary32.Same k y y →
      Binary32.Same (j + k) (x * y) (y * x) := by
    intro x y hx hy
    exact Binary32.same_of_rounds (Binary32.rounds_mul hx.left hy.left)
      (Binary32.rounds_mul hy.left hx.left) (mul_comm _ _) (hx.product_le hy) (by omega)
  have hrg := (hmul h1.r h2.r).add (hmul h1.g h2.g) (by omega)
  have hrgb := hrg.add ((hmul h1.b h2.b).mono (by omega)) (by omega)
  exact hrgb.add ((hmul h1.c h2.c).mono (by omega)) (by omega)

/-- A constant other than the negative zero keeps the whole scalar product from being it. -/
theorem plain_dot (h1 : u.Same j u) (h2 : v.Same k v) (h3 : j + k ≤ 124) (hu : Binary32.Plain u.c)
    (hv : Binary32.Same 0 v.c 1.0) : Binary32.Plain (u.dot v) := by
  have hr := h1.r.mul h2.r (by omega)
  have hg := h1.g.mul h2.g (by omega)
  have hb := h1.b.mul h2.b (by omega)
  have hc := h1.c.mul h2.c (by omega)
  have hrg := hr.add hg (by omega)
  have hrgb := hrg.add (hb.mono (by omega)) (by omega)
  have hone : v.c = 1.0 :=
    Binary32.eq_of_val hv.left hv.right hv.val_eq (by rw [hv.val_eq, Binary32.val_one]; norm_num)
  have hplain : Binary32.Plain (u.c * v.c) := by
    obtain ⟨h4, h5⟩ := Binary32.mul_one_right hu.1 hv.left (hv.val_eq.trans Binary32.val_one)
    by_cases h6 : val u.c = 0
    · rcases Binary32.zero_cases hu.1 h6 with h | h
      · rw [h, hone]
        exact ⟨by decide +kernel, by decide +kernel⟩
      · exact absurd h hu.2
    · exact Binary32.plain_of_val h4 (by rw [h5]; exact h6)
  exact hrgb.plain_add (hc.mono (by omega)) (by omega) (.inr hplain)

theorem plain_eval (h1 : u.Same k u) (h2 : p.Same 0 p) (h3 : k ≤ 124) (hu : Binary32.Plain u.c) :
    Binary32.Plain (u.eval p) := by
  have hr := h1.r.mul h2.r (by omega)
  have hg := h1.g.mul h2.g (by omega)
  have hb := h1.b.mul h2.b (by omega)
  have hrg := hr.add hg (by omega)
  have hrgb := hrg.add (hb.mono (by omega)) (by omega)
  exact hrgb.plain_add (h1.c.mono (by omega)) (by omega) (.inr hu)

theorem beq_iff (h1 : u.Same k u) (h2 : v.Same j v) : u == v ↔ u.Same j v := by
  have hbeq : (u == v) = (u.r == v.r && (u.g == v.g && (u.b == v.b && u.c == v.c))) := rfl
  have hval : ∀ {x y : Float32}, Binary32.Same k x x → Binary32.Same j y y →
      (x == y ↔ Binary32.Same j x y) := fun hx hy =>
    ⟨fun h => ⟨hx.left, hy.left, (Binary32.beq_iff hx.left hy.left).1 h,
      by rw [(Binary32.beq_iff hx.left hy.left).1 h]; exact hy.le⟩, fun h => h.beq⟩
  rw [hbeq, Bool.and_eq_true, Bool.and_eq_true, Bool.and_eq_true, hval h1.r h2.r, hval h1.g h2.g,
    hval h1.b h2.b, hval h1.c h2.c]
  exact ⟨fun ⟨hr, hg, hb, hc⟩ => ⟨hr, hg, hb, hc⟩, fun h => ⟨h.r, h.g, h.b, h.c⟩⟩

end Row

namespace ColorMatrix

/-! ## products -/

/-- The coefficients have the same values, up to `2 ^ k` in magnitude. -/
structure Same (k : ℕ) (m n : ColorMatrix Float32) : Prop where
  red : m.red.Same k n.red
  green : m.green.Same k n.green
  blue : m.blue.Same k n.blue
  one : m.one.Same k n.one

variable {a a' b b' l m n : ColorMatrix Float32} {u v w : Row Float32} {p : Rgb Float32}

theorem Same.symm (h1 : m.Same k n) : n.Same k m :=
  ⟨h1.red.symm, h1.green.symm, h1.blue.symm, h1.one.symm⟩

theorem Same.trans (h1 : m.Same k n) (h2 : n.Same j l) : m.Same k l :=
  ⟨h1.red.trans h2.red, h1.green.trans h2.green, h1.blue.trans h2.blue, h1.one.trans h2.one⟩

theorem Same.mono (h1 : m.Same j n) (h2 : j ≤ k) : m.Same k n :=
  ⟨h1.red.mono h2, h1.green.mono h2, h1.blue.mono h2, h1.one.mono h2⟩

theorem Same.transpose (h1 : m.Same k n) : m.transpose.Same k n.transpose :=
  ⟨⟨h1.red.r, h1.green.r, h1.blue.r, h1.one.r⟩, ⟨h1.red.g, h1.green.g, h1.blue.g, h1.one.g⟩,
    ⟨h1.red.b, h1.green.b, h1.blue.b, h1.one.b⟩, ⟨h1.red.c, h1.green.c, h1.blue.c, h1.one.c⟩⟩

theorem same_rowTimes (h1 : u.Same j v) (h2 : m.Same k n) (h3 : j + k ≤ 124) :
    (rowTimes u m).Same (j + k + 3) (rowTimes v n) :=
  ⟨h1.dot h2.transpose.red h3, h1.dot h2.transpose.green h3, h1.dot h2.transpose.blue h3,
    h1.dot h2.transpose.one h3⟩

theorem Same.mul (h1 : a.Same j a') (h2 : b.Same k b') (h3 : j + k ≤ 124) :
    (a * b).Same (j + k + 3) (a' * b') :=
  ⟨same_rowTimes h1.red h2 h3, same_rowTimes h1.green h2 h3, same_rowTimes h1.blue h2 h3,
    same_rowTimes h1.one h2 h3⟩

/-! ## the identity -/

theorem same_zero : Binary32.Same 0 0.0 0.0 :=
  Binary32.inUnit_zero.same

theorem same_one : Binary32.Same 0 1.0 1.0 :=
  Binary32.inUnit_one.same

theorem same_identity : (identity : ColorMatrix Float32).Same 0 identity :=
  ⟨⟨same_one, same_zero, same_zero, same_zero⟩, ⟨same_zero, same_one, same_zero, same_zero⟩,
    ⟨same_zero, same_zero, same_one, same_zero⟩, ⟨same_zero, same_zero, same_zero, same_one⟩⟩

/-- The rows of the identity pick a coefficient each. -/
structure Picks (k : ℕ) (f : Row Float32 → Float32) (w : Row Float32) : Prop where
  red : Binary32.Same k (f identity.red) w.r
  green : Binary32.Same k (f identity.green) w.g
  blue : Binary32.Same k (f identity.blue) w.b
  one : Binary32.Same k (f identity.one) w.c

theorem identity_dot (h1 : v.Same k w) : Picks k (·.dot v) w := by
  have hr := same_zero.zero_mul h1.r
  have hg := same_zero.zero_mul h1.g
  have hb := same_zero.zero_mul h1.b
  have hc := same_zero.zero_mul h1.c
  refine ⟨?_, ?_, ?_, ?_⟩
  · exact (((same_one.one_mul h1.r).add_zero hg).add_zero hb).add_zero hc
  · exact ((hr.zero_add (same_one.one_mul h1.g)).add_zero hb).add_zero hc
  · exact ((hr.add_zero hg).zero_add (same_one.one_mul h1.b)).add_zero hc
  · exact ((hr.add_zero hg).add_zero hb).zero_add (same_one.one_mul h1.c)

theorem dot_identity (h1 : v.Same k w) (hk : k ≤ 124) : Picks k v.dot w := by
  have hswap : ∀ {e : Row Float32} {x : Float32}, e.Same 0 e → Binary32.Same k (e.dot v) x →
      Binary32.Same k (v.dot e) x := by
    intro e x he hx
    have h2 := Row.dot_comm (h1.trans h1.symm) he (by omega)
    exact (hx.symm.trans h2.symm).symm
  obtain ⟨hr, hg, hb, hc⟩ := identity_dot h1
  exact ⟨hswap same_identity.red hr, hswap same_identity.green hg, hswap same_identity.blue hb,
    hswap same_identity.one hc⟩

theorem identity_mul (h1 : m.Same k n) : (identity * m).Same k n := by
  have hr := identity_dot h1.transpose.red
  have hg := identity_dot h1.transpose.green
  have hb := identity_dot h1.transpose.blue
  have hc := identity_dot h1.transpose.one
  exact ⟨⟨hr.red, hg.red, hb.red, hc.red⟩, ⟨hr.green, hg.green, hb.green, hc.green⟩,
    ⟨hr.blue, hg.blue, hb.blue, hc.blue⟩, ⟨hr.one, hg.one, hb.one, hc.one⟩⟩

theorem mul_identity (h1 : m.Same k n) (hk : k ≤ 124) : (m * identity).Same k n := by
  have hrow : ∀ {u v : Row Float32}, u.Same k v → (rowTimes u identity).Same k v := by
    intro u v h
    obtain ⟨hr, hg, hb, hc⟩ := dot_identity h hk
    exact ⟨hr, hg, hb, hc⟩
  exact ⟨hrow h1.red, hrow h1.green, hrow h1.blue, hrow h1.one⟩

theorem isIdentity_iff (h1 : m.Same k n) : m.band.isIdentity ↔ m.red.Same 0 identity.red
    ∧ m.green.Same 0 identity.green ∧ m.blue.Same 0 identity.blue := by
  have hbeq : m.band.isIdentity
      = (m.red == identity.red && (m.green == identity.green && m.blue == identity.blue)) := rfl
  have h2 := h1.trans h1.symm
  rw [hbeq, Bool.and_eq_true, Bool.and_eq_true, Row.beq_iff h2.red same_identity.red,
    Row.beq_iff h2.green same_identity.green, Row.beq_iff h2.blue same_identity.blue]

theorem Same.isIdentity_eq (h1 : m.Same k n) : m.band.isIdentity = n.band.isIdentity := by
  rw [Bool.eq_iff_iff, isIdentity_iff h1, isIdentity_iff h1.symm]
  have hrow : ∀ {u v e : Row Float32}, u.Same k v → (u.Same 0 e ↔ v.Same 0 e) := by
    intro u v e h
    refine ⟨fun h2 => ?_, fun h2 => ?_⟩
    · exact (h2.symm.trans h).symm
    · exact (h2.symm.trans h.symm).symm
  rw [hrow h1.red, hrow h1.green, hrow h1.blue]

theorem apply_identity (h1 : m.Same k n) (h2 : m.band.isIdentity) (hp : p.Same 0 p) :
    (m.band.apply p).Same 3 p := by
  obtain ⟨h3, h4, h5⟩ := (isIdentity_iff h1).1 h2
  have hr := same_zero.zero_mul hp.r
  have hg := same_zero.zero_mul hp.g
  have hb := same_zero.zero_mul hp.b
  have hred : Binary32.Same 0 (identity.red.eval p) p.r :=
    (((same_one.one_mul hp.r).add_zero hg).add_zero hb).add_zero same_zero
  have hgreen : Binary32.Same 0 (identity.green.eval p) p.g :=
    ((hr.zero_add (same_one.one_mul hp.g)).add_zero hb).add_zero same_zero
  have hblue : Binary32.Same 0 (identity.blue.eval p) p.b :=
    ((hr.add_zero hg).zero_add (same_one.one_mul hp.b)).add_zero same_zero
  exact ⟨(h3.eval hp (by omega)).trans hred, (h4.eval hp (by omega)).trans hgreen,
    (h5.eval hp (by omega)).trans hblue⟩

/-! ## matrices without negative zeros as constants -/

/-- No constant of the matrix is the negative zero, and its last row is that of the identity. -/
structure Sound (k : ℕ) (m : ColorMatrix Float32) : Prop where
  same : m.Same k m
  red : Binary32.Plain m.red.c
  green : Binary32.Plain m.green.c
  blue : Binary32.Plain m.blue.c
  one : m.one.Same 0 identity.one

theorem sound_identity : Sound 0 identity :=
  ⟨same_identity, Binary32.plain_zero, Binary32.plain_zero, Binary32.plain_zero,
    same_identity.one⟩

theorem Sound.mono (h1 : m.Sound j) (h2 : j ≤ k) : m.Sound k :=
  ⟨h1.same.mono h2, h1.red, h1.green, h1.blue, h1.one⟩

theorem Sound.mul (h1 : a.Sound j) (h2 : b.Sound k) (h3 : j + k ≤ 124) :
    (a * b).Sound (j + k + 3) where
  same := h1.same.mul h2.same h3
  red := Row.plain_dot h1.same.red h2.same.transpose.one h3 h1.red h2.one.c
  green := Row.plain_dot h1.same.green h2.same.transpose.one h3 h1.green h2.one.c
  blue := Row.plain_dot h1.same.blue h2.same.transpose.one h3 h1.blue h2.one.c
  one := by
    have hpick : (rowTimes identity.one b).Same k b.one := (identity_mul h2.same).one
    have hrow := (same_rowTimes h1.one h2.same (by omega)).trans hpick
    exact (h2.one.symm.trans hrow.symm).symm

theorem Sound.plain_apply (h1 : m.Sound k) (hk : k ≤ 124) (hp : p.Same 0 p) :
    (m.band.apply p).Plain :=
  ⟨Row.plain_eval h1.same.red hp hk h1.red, Row.plain_eval h1.same.green hp hk h1.green,
    Row.plain_eval h1.same.blue hp hk h1.blue⟩

theorem Same.apply {q : Rgb Float32} (h1 : m.Same k n) (hk : k ≤ 124) (hp : p.Same 0 q) :
    (m.band.apply p).Same (k + 3) (n.band.apply q) :=
  ⟨h1.red.eval hp hk, h1.green.eval hp hk, h1.blue.eval hp hk⟩

end ColorMatrix
end HueSaturation
