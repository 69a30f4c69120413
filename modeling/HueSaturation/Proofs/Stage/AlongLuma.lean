import HueSaturation.Proofs.Color.Curves
import HueSaturation.Proofs.Color.Gamut
import HueSaturation.Stage.Vibrance

/-!
# Vibrance in exact arithmetic

Vibrance moves every channel along its line through the luma of the pixel, all by one factor that
is never negative. So it keeps the luma and the order of the channels, it scales their spread, and
where it mutes a pixel it stays in the unit cube. None of this depends on what counts as a flesh
tone.

* `Rgb.channel`, `largest`, `smallest`   the channels by number, and the ends of their range;
* `spread_map_along`, `spread_le_spread_unit`   the spread after such a move;
* `Vibrance.moved_eq`              the stage as such a move;
* `Vibrance.strength_mem`, `skinAffinity_mem`   its weight is a proportion;
* `vibrance_moves_along_luma`      the stage on any pixel.
-/

namespace HueSaturation

/-! ## channels -/

namespace Rgb

variable {p : Rgb ℝ} {f : ℝ → ℝ}

def channel (p : Rgb ℝ) : Fin 3 → ℝ :=
  ![p.r, p.g, p.b]

theorem channel_map (f : ℝ → ℝ) (p : Rgb ℝ) (i : Fin 3) :
    (p.map f).channel i = f (p.channel i) := by
  fin_cases i <;> rfl

noncomputable def largest (p : Rgb ℝ) : ℝ :=
  max (max p.r p.g) p.b

noncomputable def smallest (p : Rgb ℝ) : ℝ :=
  min (min p.r p.g) p.b

theorem spread_eq (p : Rgb ℝ) : p.spread = p.largest - p.smallest := by
  simp only [spread, Exact.greatest_eq, Exact.least_eq]
  rfl

theorem smallest_le_largest (p : Rgb ℝ) : p.smallest ≤ p.largest :=
  (min_le_right _ _).trans (le_max_right _ _)

theorem largest_map (hf : Monotone f) (p : Rgb ℝ) : (p.map f).largest = f p.largest := by
  rw [largest, largest, hf.map_max, hf.map_max]
  rfl

theorem smallest_map (hf : Monotone f) (p : Rgb ℝ) : (p.map f).smallest = f p.smallest := by
  rw [smallest, smallest, hf.map_min, hf.map_min]
  rfl

theorem spread_map (hf : Monotone f) (p : Rgb ℝ) :
    (p.map f).spread = f p.largest - f p.smallest := by
  rw [spread_eq, largest_map hf, smallest_map hf]

theorem spread_nonneg (p : Rgb ℝ) : 0 ≤ p.spread := by
  rw [spread_eq]
  exact sub_nonneg.2 p.smallest_le_largest

theorem luma_le_largest (p : Rgb ℝ) : p.luma ≤ p.largest := by
  have hr : p.r ≤ p.largest := (le_max_left _ _).trans (le_max_left _ _)
  have hg : p.g ≤ p.largest := (le_max_right _ _).trans (le_max_left _ _)
  have hb : p.b ≤ p.largest := le_max_right _ _
  rw [luma]
  linarith

theorem smallest_le_luma (p : Rgb ℝ) : p.smallest ≤ p.luma := by
  have hr : p.smallest ≤ p.r := (min_le_left _ _).trans (min_le_left _ _)
  have hg : p.smallest ≤ p.g := (min_le_left _ _).trans (min_le_right _ _)
  have hb : p.smallest ≤ p.b := min_le_right _ _
  rw [luma]
  linarith

theorem InCube.largest_le (hp : p.InCube) : p.largest ≤ 1 :=
  max_le (max_le hp.r.2 hp.g.2) hp.b.2

theorem InCube.smallest_nonneg (hp : p.InCube) : 0 ≤ p.smallest :=
  le_min (le_min hp.r.1 hp.g.1) hp.b.1

end Rgb

/-! ## channels along lines through the luma -/

section
variable {k : ℝ} {p : Rgb ℝ}

theorem spread_map_along (hk : 0 ≤ k) (y : ℝ) (p : Rgb ℝ) :
    (p.map (along y k)).spread = k * p.spread := by
  rw [Rgb.spread_map (along_mono hk y), Rgb.spread_eq, along, along]
  ring

theorem map_along_inCube (hk : k ∈ Set.Icc 0 1) (hp : p.InCube) :
    (p.map (along p.luma k)).InCube := by
  have hmem {x : ℝ} (hx : x ∈ Set.Icc (0 : ℝ) 1) : along p.luma k x ∈ Set.Icc (0 : ℝ) 1 :=
    (convex_Icc 0 1).add_smul_sub_mem hp.luma_mem hx hk
  exact ⟨hmem hp.r, hmem hp.g, hmem hp.b⟩

/-- Cutting a pixel down to the unit cube undoes no more than what has left it. -/
theorem spread_le_spread_unit (hk : 1 ≤ k) (hp : p.InCube) :
    p.spread ≤ (p.map (along p.luma k)).unit.spread := by
  have hmono : Monotone fun x => Scalar.unit (along p.luma k x) :=
    Exact.unit_mono.comp (along_mono (zero_le_one.trans hk) p.luma)
  -- the luma is between the ends, so both move outward
  have hlarge : p.largest ≤ along p.luma k p.largest := by
    have hup := mul_nonneg (sub_nonneg.2 hk) (sub_nonneg.2 p.luma_le_largest)
    rw [along]
    linarith
  have hsmall : along p.luma k p.smallest ≤ p.smallest := by
    have hdown := mul_nonneg (sub_nonneg.2 hk) (sub_nonneg.2 p.smallest_le_luma)
    rw [along]
    linarith
  show p.spread ≤ (p.map fun x => Scalar.unit (along p.luma k x)).spread
  rw [Rgb.spread_map hmono, Rgb.spread_eq, Exact.unit_eq, Exact.unit_eq]
  have h1 : p.largest ≤ max 0 (min 1 (along p.luma k p.largest)) :=
    le_max_of_le_right (le_min hp.largest_le hlarge)
  have h2 : max 0 (min 1 (along p.luma k p.smallest)) ≤ p.smallest :=
    max_le hp.smallest_nonneg (min_le_of_right_le hsmall)
  linarith

end

/-! ## the stage -/

theorem hueDistance_nonneg (a b : ℝ) : 0 ≤ hueDistance a b := by
  obtain ⟨h0, h1⟩ := Exact.turn_mem (a - b)
  rw [hueDistance, Exact.least_eq, Exact.one_eq]
  exact le_min h0 (sub_nonneg.2 h1)

namespace Vibrance

variable {a v w : ℝ} {p : Rgb ℝ}

theorem skinAffinity_mem (fns : Elementary ℝ) (p : Rgb ℝ) : skinAffinity fns p ∈ Set.Icc 0 1 := by
  rw [skinAffinity, Exact.zero_eq, Exact.one_eq]
  simp only [Exact.greatest_eq]
  split
  · exact ⟨le_rfl, zero_le_one⟩
  · have hdistance : 0 ≤ hueDistance (p.toPolar fns).hue 0.375 / 0.1 :=
      div_nonneg (hueDistance_nonneg _ _) (by norm_num)
    exact ⟨le_max_right _ _, max_le (sub_le_self 1 hdistance) zero_le_one⟩

theorem strength_mem (s : ℝ) (ha : a ∈ Set.Icc 0 1) : strength s a ∈ Set.Icc 0 1 := by
  obtain ⟨h0, h1⟩ := Exact.unit_mem s
  have hrest : 1 - Scalar.unit s ∈ Set.Icc (0 : ℝ) 1 := ⟨sub_nonneg.2 h1, sub_le_self 1 h0⟩
  have hdamped : 1 - 0.5 * a ∈ Set.Icc (0 : ℝ) 1 := by
    obtain ⟨ha0, ha1⟩ := ha
    constructor <;> linarith
  rw [strength, Exact.one_eq]
  exact unitInterval.mul_mem (unitInterval.mul_mem hrest hrest) hdamped

theorem strength_one (a : ℝ) : strength 1 a = 0 := by
  have hunit : Scalar.unit (1 : ℝ) = 1 := Exact.unit_of_mem ⟨zero_le_one, le_rfl⟩
  simp only [strength, hunit, Exact.one_eq, sub_self, zero_mul]

theorem moved_eq (v w : ℝ) (p : Rgb ℝ) :
    (ofSetting v).moved w p = p.map (along p.luma (1 + w * v / 100)) := by
  have hmatrix : (ofSetting v).matrix.apply p = p.map (along p.luma (v / 100.0 + 1.0)) :=
    ColorMatrix.apply_saturation _ p
  rw [Exact.percent_eq] at hmatrix
  simp only [moved, hmatrix, Rgb.zip, Rgb.map, along, Rgb.mk.injEq]
  refine ⟨?_, ?_, ?_⟩ <;> ring

/-- What a weight leaves of a factor in percent. -/
theorem factor_mem (hw : w ∈ Set.Icc 0 1) (hv : v ∈ Set.Icc (-100) 0) :
    1 + w * v / 100 ∈ Set.Icc (0 : ℝ) 1 := by
  obtain ⟨hw0, hw1⟩ := hw
  have hlow : w * (-100) ≤ w * v := mul_le_mul_of_nonneg_left hv.1 hw0
  have hhigh : w * v ≤ 0 := mul_nonpos_of_nonneg_of_nonpos hw0 hv.2
  constructor <;> linarith

theorem one_le_factor (hw : w ∈ Set.Icc 0 1) (hv : 0 ≤ v) : 1 ≤ 1 + w * v / 100 :=
  le_add_of_nonneg_right (div_nonneg (mul_nonneg hw.1 hv) (by norm_num))

theorem factor_nonneg (hw : w ∈ Set.Icc 0 1) (hv : -100 ≤ v) : 0 ≤ 1 + w * v / 100 := by
  rcases le_total v 0 with h | h
  · exact (factor_mem hw ⟨hv, h⟩).1
  · exact zero_le_one.trans (one_le_factor hw h)

/-- Grays have no line to move on, and full colors, like every color at rest, no weight to do so. -/
theorem moved_of_fixed (a : ℝ) (h : (∃ y, p = .gray y) ∨ p.spread = 1 ∨ v = 0) :
    (ofSetting v).moved (strength p.spread a) p = p := by
  rw [moved_eq]
  rcases h with ⟨y, rfl⟩ | h | rfl
  · rw [Rgb.luma_gray, Rgb.map_gray, along_self]
  · rw [h, strength_one, zero_mul, zero_div, add_zero, along_one]
    rfl
  · rw [mul_zero, zero_div, add_zero, along_one]
    rfl

end Vibrance

/-- **Vibrance moves a pixel along its own luma.** For any affinity to flesh tones that is a
proportion, any setting and any pixel in the unit cube, every channel moves on its line through the
luma, by one factor, before it is cut down to `[0, 1]`. So the luma stays; grays, full colors and,
at rest, all pixels stay where they are; more vibrance never narrows the spread and less never
widens it; no two channels change their order; and a pixel that is muted is in the unit cube by
itself. -/
theorem vibrance_moves_along_luma (skin : Rgb ℝ → ℝ) (hskin : ∀ p, skin p ∈ Set.Icc 0 1)
    (v : ℝ) (hv : v ∈ Set.Icc (-100) 100) (p : Rgb ℝ) (hp : p.InCube) :
    let w := Vibrance.strength p.spread (skin p)
    let q := (Vibrance.ofSetting v).moved w p
    w ∈ Set.Icc (0 : ℝ) 1 ∧
    q = p.map (fun x => p.luma + (1 + w * v / 100) * (x - p.luma)) ∧
    q.luma = p.luma ∧
    ((∃ y, p = .gray y) ∨ p.spread = 1 ∨ v = 0 → q = p) ∧
    (0 < v → p.spread ≤ q.spread ∧ p.spread ≤ q.unit.spread) ∧
    (v < 0 → q.spread ≤ p.spread) ∧
    (∀ i j, p.channel i ≤ p.channel j →
      q.channel i ≤ q.channel j ∧ q.unit.channel i ≤ q.unit.channel j) ∧
    (v ≤ 0 → q.unit = q) ∧
    ∀ fns, (∀ p', Vibrance.skinAffinity fns p' ∈ Set.Icc 0 1) ∧
      (Vibrance.skinAffinity fns p = skin p →
        Vibrance.weight fns p = w ∧ (Vibrance.ofSetting v).applyPixel fns p = q.unit) := by
  intro w q
  have hw : w ∈ Set.Icc (0 : ℝ) 1 := Vibrance.strength_mem p.spread (hskin p)
  have hq : q = p.map (along p.luma (1 + w * v / 100)) := Vibrance.moved_eq v w p
  have hk := Vibrance.factor_nonneg hw hv.1
  have hspread : q.spread = (1 + w * v / 100) * p.spread := by
    rw [hq, spread_map_along hk]
  refine ⟨hw, hq, ?_, Vibrance.moved_of_fixed (skin p), fun h => ?_, fun h => ?_, fun i j h => ?_,
    fun h => ?_, fun fns => ⟨Vibrance.skinAffinity_mem fns, fun h => ?_⟩⟩
  · rw [hq, luma_map_along]
  · have hone := Vibrance.one_le_factor hw h.le
    constructor
    · rw [hspread]
      exact le_mul_of_one_le_left p.spread_nonneg hone
    · rw [hq]
      exact spread_le_spread_unit hone hp
  · rw [hspread]
    exact mul_le_of_le_one_left p.spread_nonneg (Vibrance.factor_mem hw ⟨hv.1, h.le⟩).2
  · have horder : q.channel i ≤ q.channel j := by
      rw [hq, Rgb.channel_map, Rgb.channel_map]
      exact along_mono hk p.luma h
    refine ⟨horder, ?_⟩
    rw [Rgb.unit, Rgb.channel_map, Rgb.channel_map]
    exact Exact.unit_mono horder
  · have hcube : q.InCube := hq ▸ map_along_inCube (Vibrance.factor_mem hw ⟨hv.1, h⟩) hp
    exact hcube.unit
  · have hweight : Vibrance.weight fns p = w := by
      rw [Vibrance.weight, h]
    rw [Vibrance.applyPixel, hweight]
    exact ⟨rfl, rfl⟩

/-- A blue pixel muted by half, with its own affinity to flesh tones. -/
theorem vibrance_of_blue :
    let p : Rgb ℝ := ⟨1 / 4, 1 / 2, 3 / 4⟩
    let q := (Vibrance.ofSetting (-50)).applyPixel .real p
    p.InCube ∧ q.luma = 0.4649 ∧ q.spread ≤ 1 / 2 ∧ q.r ≤ q.g ∧ q.g ≤ q.b := by
  intro p q
  have hp : p.InCube := by
    refine ⟨?_, ?_, ?_⟩ <;> norm_num [p]
  obtain ⟨-, -, hluma, -, -, hspread, horder, hunit, happly⟩ := vibrance_moves_along_luma
    (Vibrance.skinAffinity .real) (Vibrance.skinAffinity_mem .real) (-50) (by norm_num) p hp
  have hq := ((happly .real).2 rfl).2
  have hmuted := hunit (by norm_num)
  have hwidth : p.spread = 1 / 2 := by
    norm_num [p, Rgb.spread_eq, Rgb.largest, Rgb.smallest]
  have hrg : p.channel 0 ≤ p.channel 1 := by
    show (1 / 4 : ℝ) ≤ 1 / 2
    norm_num
  have hgb : p.channel 1 ≤ p.channel 2 := by
    show (1 / 2 : ℝ) ≤ 3 / 4
    norm_num
  refine ⟨hp, ?_, ?_, ?_, ?_⟩
  · show ((Vibrance.ofSetting (-50)).applyPixel .real p).luma = 0.4649
    rw [hq, hmuted, hluma]
    norm_num [p, Rgb.luma]
  · show ((Vibrance.ofSetting (-50)).applyPixel .real p).spread ≤ 1 / 2
    rw [hq, hmuted, ← hwidth]
    exact hspread (by norm_num)
  · show ((Vibrance.ofSetting (-50)).applyPixel .real p).r ≤ _
    rw [hq]
    exact (horder 0 1 hrg).2
  · show ((Vibrance.ofSetting (-50)).applyPixel .real p).g ≤ _
    rw [hq]
    exact (horder 1 2 hgb).2

end HueSaturation
