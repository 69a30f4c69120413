import HueSaturation.Proofs.Control.Values
import HueSaturation.Proofs.Edit.Tiled
import HueSaturation.Proofs.Stage.Zeros

/-!
# Stages at rest may be left out

A pipeline leaves out the effects and stages whose controls are at rest, and takes the identity for
granted where it sees it. A pipeline that does neither makes the same image.

* `ColorMatrix.Alike`       one matrix, with and without factors that are the identity;
* `Pipeline.wholeMatrix`, `wholePixel`   the pipeline that leaves out nothing;
* `Rgb.Tracks`              a pixel on its way through both pipelines: every stage keeps that;
* `skips_keep_the_front`    the front images are equal.
-/

namespace HueSaturation

open Binary32 (val)

variable {j k : ℕ} {fns : Library Float32}

namespace ColorMatrix

/-- Two matrices of the same value, without negative zeros as constants. -/
structure Alike (k : ℕ) (m n : ColorMatrix Float32) : Prop where
  same : m.Same k n
  left : m.Sound k
  right : n.Sound k

variable {e m n : ColorMatrix Float32}

/-- A factor that may be left out where it is the identity. -/
theorem Alike.step (h1 : m.Alike k n) (he : e.Sound j) (h2 : j + k ≤ 124) (active : Bool)
    (h3 : active = false → e = identity) :
    (if active then e * m else m).Alike (j + k + 3) (e * n) := by
  cases active with
  | true => exact ⟨he.same.mul h1.same h2, he.mul h1.left h2, he.mul h1.right h2⟩
  | false =>
    have h4 : (identity * n).Same k n := identity_mul h1.right.same
    refine ⟨?_, h1.left.mono (by omega), he.mul h1.right h2⟩
    rw [h3 rfl]
    exact (h1.same.trans h4.symm).mono (by omega)

end ColorMatrix

namespace Effect

theorem compose_append (fns : Library Float32) (m : ColorMatrix Float32)
    (es es' : List (Effect Float32)) :
    compose fns m (es ++ es') = compose fns (compose fns m es) es' :=
  List.foldl_append

theorem compose_if (fns : Library Float32) (m : ColorMatrix Float32) (e : Effect Float32)
    (active : Bool) :
    compose fns m (if active then [e] else [])
      = if active then fns.mul (e.matrix fns) m else m := by
  cases active <;> rfl

end Effect

theorem Settings.value_at_rest {s : Settings} {k : Control}
    (h1 : ((s.value k : Float32) != 0.0) = false) : (s.value k : Float32) = 0.0 :=
  value_of_zero ((s.value_at_rest_iff k).1 h1)

namespace Pipeline

variable {s : Settings}

/-- The matrix of all effects, whether or not they are at rest. -/
def wholeMatrix (fns : Library Float32) (s : Settings) : ColorMatrix Float32 :=
  let lit : Float32 := s.value .luminosity / 100.0 + 1.0
  fns.mul (.contrast fns (s.value .contrast) (s.value .luminosity))
    (fns.mul (.diagonal lit lit lit) (.saturation (s.value .saturation / 100.0 + 1.0)))

def wholePixel (fns : Library Float32) (s : Settings) (p : Rgb Float32) : Rgb Float32 :=
  let p := ((wholeMatrix fns s).band.apply p).unit
  let p := (Vibrance.ofSetting (s.value .vibrance)).applyPixel fns p
  (HueRotation.ofDegrees (s.value .hue)).applyPixel fns p

theorem stored_value (hs : ∀ k, |(s.values.get k).toInt| ≤ 2048) (k : Control) :
    Binary32.Stored (s.value k) :=
  ⟨(s.finite_value k).1, _, (s.finite_value k).2, hs k⟩

/-- The matrix of saturation and luminosity, as far as they are not at rest. -/
def linear (s : Settings) : ColorMatrix Float32 :=
  let lit : Float32 := s.value .luminosity / 100.0 + 1.0
  let saturated : ColorMatrix Float32 := if (s.value .saturation : Float32) != 0.0
    then .saturation (s.value .saturation / 100.0 + 1.0) * .identity else .identity
  if (s.value .luminosity : Float32) != 0.0 then .diagonal lit lit lit * saturated else saturated

/-- The matrix of saturation and luminosity, whether or not they are at rest. -/
def wholeLinear (s : Settings) : ColorMatrix Float32 :=
  let lit : Float32 := s.value .luminosity / 100.0 + 1.0
  .diagonal lit lit lit * .saturation (s.value .saturation / 100.0 + 1.0)

theorem matrix_ofSettings (hproduct : fns.SumsInTurn) (s : Settings) : (ofSettings fns s).matrix
    = if (s.value .contrast : Float32) != 0.0
      then .contrast fns (s.value .contrast) (s.value .luminosity) * linear s else linear s := by
  have hmatrix : (ofSettings fns s).matrix = Effect.compose fns .identity (effects s) := rfl
  rw [hmatrix, effects, Effect.compose_append, Effect.compose_append, Effect.compose_if,
    Effect.compose_if, Effect.compose_if]
  simp only [hproduct.mul_eq]
  rfl

theorem wholeMatrix_eq (hproduct : fns.SumsInTurn) (s : Settings) : wholeMatrix fns s
    = .contrast fns (s.value .contrast) (s.value .luminosity) * wholeLinear s := by
  simp only [wholeMatrix, hproduct.mul_eq]
  rfl

theorem linear_alike (hs : ∀ k, |(s.values.get k).toInt| ≤ 2048) :
    (linear s).Alike 20 (wholeLinear s) := by
  have hstored := stored_value hs
  have hsaturation := ColorMatrix.sound_saturation (ColorMatrix.same_factor (hstored .saturation))
  have hdiagonal := ColorMatrix.sound_diagonal (ColorMatrix.same_factor (hstored .luminosity))
  have hstart : (ColorMatrix.identity : ColorMatrix Float32).Alike 0 .identity :=
    ⟨ColorMatrix.same_identity, ColorMatrix.sound_identity, ColorMatrix.sound_identity⟩
  have hfirst := hstart.step hsaturation (by omega) ((s.value .saturation : Float32) != 0.0)
    fun h => by
      rw [Settings.value_at_rest h]
      exact ColorMatrix.saturation_neutral
  -- without luminosity the identity that the composition starts from goes as well
  have hsecond : ColorMatrix.Alike 11
      (if (s.value .saturation : Float32) != 0.0 then
        ColorMatrix.saturation (s.value .saturation / 100.0 + 1.0) * .identity else .identity)
      (.saturation (s.value .saturation / 100.0 + 1.0)) :=
    ⟨hfirst.same.trans (ColorMatrix.mul_identity hsaturation.same (by omega)), hfirst.left,
      hsaturation.mono (by omega)⟩
  exact hsecond.step hdiagonal (by omega) _ fun h => by
    rw [Settings.value_at_rest h]
    exact ColorMatrix.diagonal_neutral

theorem matrix_alike (hfns : fns.Exp2Laws) (hproduct : fns.SumsInTurn)
    (hs : ∀ k, |(s.values.get k).toInt| ≤ 2048) :
    (ofSettings fns s).matrix.Alike 63 (wholeMatrix fns s) := by
  have hstored := stored_value hs
  have hcontrast := ColorMatrix.sound_contrast hfns (hstored .contrast) (hstored .luminosity)
  rw [matrix_ofSettings hproduct, wholeMatrix_eq hproduct]
  exact (linear_alike hs).step hcontrast (by omega) _ fun h => by
    rw [Settings.value_at_rest h]
    exact ColorMatrix.contrast_neutral hfns (hstored .luminosity)

theorem vibrance_ofSettings (fns : Library Float32) (s : Settings) :
    (ofSettings fns s).vibrance
      = if (s.value .vibrance : Float32) != 0.0 then some (.ofSetting (s.value .vibrance))
        else none :=
  rfl

theorem vibrance_elim (fns : Library Float32) (s : Settings) (p : Rgb Float32) :
    (ofSettings fns s).vibrance.elim p (·.stagePixel fns p)
      = (Vibrance.ofSetting (s.value .vibrance)).stagePixel fns p := by
  rw [vibrance_ofSettings]
  split
  · rfl
  · next h =>
    have hidentity : (Vibrance.ofSetting (0.0 : Float32)).isIdentity := by decide +kernel
    rw [Settings.value_at_rest (Bool.not_eq_true _ ▸ h)]
    exact (if_pos hidentity).symm

theorem hue_elim (fns : Library Float32) (s : Settings) (p : Rgb Float32) :
    (ofSettings fns s).hue.elim p (·.applyPixel fns p)
      = (HueRotation.ofDegrees (s.value .hue)).applyPixel fns p := by
  have hstage : (ofSettings fns s).hue
      = if (HueRotation.ofDegrees (s.value .hue : Float32)).isIdentity then none
        else some (.ofDegrees (s.value .hue)) := rfl
  rw [hstage]
  split
  · next h => exact (if_pos h).symm
  · rfl

end Pipeline

/-! ## pixels on their way -/

/-- The pixel `p` of a pipeline and `q` of the one that leaves out nothing: their values are the
same, and so are they where no channel was the negative zero to begin with. -/
structure Rgb.Tracks (fns : Elementary Float32) (p q : Rgb Float32) : Prop where
  same : p.Same 0 q
  unit : q.InUnit
  plain : q.Plain
  exact : p = q ∨ fns.ZeroLaws

namespace Rgb

variable {p q : Rgb Float32} {m n : ColorMatrix Float32}

theorem Same.inUnit (h1 : p.Same 0 q) (hq : q.InUnit) : p.InUnit := by
  have hchannel : ∀ {x y : Float32}, Binary32.Same 0 x y → Binary32.InUnit y →
      Binary32.InUnit x := by
    intro x y h hy
    rw [Binary32.InUnit, h.val_eq]
    exact ⟨h.left, hy.2⟩
  exact ⟨hchannel h1.r hq.r, hchannel h1.g hq.g, hchannel h1.b hq.b⟩

theorem tracks_combine (h1 : m.Alike k n) (hk : k ≤ 124) (hp : p.InUnit)
    (hzero : p.Plain ∨ fns.ZeroLaws) :
    Tracks fns (m.band.combinePixel p) (n.band.apply p).unit := by
  have hplain := (h1.right.plain_apply hk hp.same).unit
  have hunit := inUnit_unit (n.band.apply p)
  rw [BandMatrix.combinePixel]
  split
  · next h =>
    have hidentity : n.band.isIdentity := h1.same.isIdentity_eq ▸ h
    have hsame := (ColorMatrix.apply_identity h1.right.same hidentity hp.same).unit
    rw [unit_of_inUnit hp] at hsame
    exact ⟨hsame.symm, hunit, hplain, hzero.imp_left fun h => hsame.symm.eq_of_plain h hplain⟩
  · have hsame := (h1.same.apply hk hp.same).unit
    exact ⟨hsame, hunit, hplain,
      .inl (hsame.eq_of_plain (h1.left.plain_apply hk hp.same).unit hplain)⟩

theorem Tracks.vibrance (h1 : Tracks fns p q) {v : Float32} (hv : Binary32.Stored v) :
    Tracks fns ((Vibrance.ofSetting v).stagePixel fns p)
      ((Vibrance.ofSetting v).applyPixel fns q) := by
  have hp := h1.same.inUnit h1.unit
  have hmatrix := ColorMatrix.sound_saturation (ColorMatrix.same_factor hv)
  have hweight : Binary32.Same 3 (Vibrance.weight fns q) (Vibrance.weight fns q) :=
    Vibrance.same_weight h1.unit.same rfl
  have hplain := (Vibrance.plain_moved hmatrix h1.unit.same hweight h1.plain).unit
  have hunit : ((Vibrance.ofSetting v).applyPixel fns q).InUnit := inUnit_unit _
  rw [Vibrance.stagePixel]
  split
  · next h =>
    have hsame := (Vibrance.same_moved_self hmatrix h h1.unit.same hweight).unit
    rw [unit_of_inUnit h1.unit] at hsame
    refine ⟨h1.same.trans hsame.symm, hunit, hplain, h1.exact.imp_left fun h => ?_⟩
    rw [h]
    exact hsame.symm.eq_of_plain h1.plain hplain
  · refine ⟨?_, hunit, hplain, h1.exact.imp_left fun h => by rw [h]⟩
    have haffinity : Vibrance.skinAffinity fns p = Vibrance.skinAffinity fns q := by
      rcases h1.exact with h | hz
      · rw [h]
      · exact Vibrance.affinity_eq hz h1.same hp h1.unit
    exact (Vibrance.same_moved hmatrix h1.same (Vibrance.same_weight h1.same haffinity)).unit

theorem Tracks.same_hue (h1 : Tracks fns p q) (s : HueRotation Float32) :
    (s.applyPixel fns p).Same 0 (s.applyPixel fns q) := by
  rcases h1.exact with h | hz
  · rw [h]
    exact (HueRotation.inUnit_applyPixel s fns h1.unit).same
  · exact HueRotation.same_rotation hz h1.same (h1.same.inUnit h1.unit) h1.unit

end Rgb

theorem Pipeline.frontPixel_same {s : Settings} (hfns : fns.Exp2Laws)
    (hproduct : fns.SumsInTurn) (hs : ∀ k, |(s.values.get k).toInt| ≤ 2047) {p : Rgb Float32}
    (hp : p.InUnit) (hzero : p.Plain ∨ fns.ZeroLaws) :
    ((ofSettings fns s).frontPixel fns p).Same 0 (wholePixel fns s p) := by
  have hwide : ∀ k, |(s.values.get k).toInt| ≤ 2048 := fun k => (hs k).trans (by norm_num)
  rw [frontPixel]
  simp only [vibrance_elim, hue_elim]
  have hcombined := Rgb.tracks_combine (matrix_alike hfns hproduct hwide) (by omega) hp hzero
  exact (hcombined.vibrance (stored_value hwide .vibrance)).same_hue _

/-- **Leaving out stages at rest is sound.** For settings in the range of stored values and colors
in `[0, 1]`, the front image of a pipeline is the image that all stages make together: the floats
compare as equal, pixel by pixel. The matrix product that is handed in adds the four products of an
entry in turn. Only an image with negative zeros asks for more than the laws of powers, since it
shows which sign of zero the length and the angle of a vector were asked about. -/
theorem skips_keep_the_front (fns : Library Float32) (hfns : fns.Exp2Laws)
    (hproduct : fns.SumsInTurn) (s : Settings) (hs : ∀ k, |(s.values.get k).toInt| ≤ 2047)
    (img : RgbImage) (himg : ∀ p ∈ img.pixels, p.all (Scalar.within 0.0 1.0))
    (hzero : (∀ p ∈ img.pixels, p.Plain) ∨ fns.ZeroLaws) :
    ∃ out, (Pipeline.ofSettings fns s).front fns Host.reference img = .ok out
      ∧ out.toSize = img.toSize
      ∧ ∀ x y, x < img.width.toNat → y < img.height.toNat → ∃ p q, out.at? x y = some p
        ∧ (img.map (Pipeline.wholePixel fns s)).at? x y = some q ∧ p == q := by
  refine ⟨_, Pipeline.front_reference _ fns img, Image.toSize_map _ img, fun x y hx hy => ?_⟩
  rw [Image.at?_map, Image.at?_map, Image.at?_of_lt img hx hy]
  have hmem : img.pixels.get ⟨y * img.width.toNat + x, Size.index_lt hx hy⟩ ∈ img.pixels :=
    Vector.getElem_mem (Size.index_lt hx hy)
  refine ⟨_, _, rfl, rfl, ?_⟩
  have hp : (img.pixels.get ⟨y * img.width.toNat + x, Size.index_lt hx hy⟩).InUnit := by
    have h := himg _ hmem
    rw [Rgb.all, Bool.and_eq_true, Bool.and_eq_true] at h
    exact ⟨Binary32.inUnit_of_within h.1.1, Binary32.inUnit_of_within h.1.2,
      Binary32.inUnit_of_within h.2⟩
  exact (Pipeline.frontPixel_same hfns hproduct hs hp (hzero.imp_left fun h => h _ hmem)).beq

/-- Vibrance alone, on a green with the negative zero as its red. The functions have the values of
the machine's on what they are asked. -/
theorem skips_keep_a_green :
    let fns : Library Float32 :=
      { exp2 := fun _ => 1.0, sin := fun _ => 0.0, cos := fun _ => 1.0, tau := 6.2831855
        atan2 := fun y x => if y == 0.0 then y else if x == 0.0 then 1.5707964 else -1.8935847
        hypot := fun x y => if y == 0.0 then x.abs else if x == 0.0 then y.abs else 0.3961071
        times := fun x y => (x.transpose * y.transpose).transpose }
    let s : Settings := ⟨(PerControl.const 0).set .vibrance 20⟩
    let img : RgbImage := .fill ⟨1, 1⟩ ⟨-0.0, 0.5, 0.25⟩
    ∃ out, (Pipeline.ofSettings fns s).front fns Host.reference img = .ok out ∧ ∃ p q,
      out.at? 0 0 = some p ∧ (img.map (Pipeline.wholePixel fns s)).at? 0 0 = some q ∧ p == q := by
  intro fns s img
  have hexp2 : fns.Exp2Laws := by
    refine ⟨rfl, fun x _ => ?_⟩
    show Scalar.within 0.0 8589934592.0 1.0
    decide +kernel
  have hzero : fns.ZeroLaws := by
    refine ⟨rfl, fun x z hx hz => ⟨if_pos hz, ?_⟩, fun z x hz _ => if_pos hz, fun y z hy hz => ?_⟩
    · show (if x == 0.0 then z.abs else if z == 0.0 then x.abs else _) = x.abs
      by_cases h : x == 0.0
      · rw [if_pos h]
        rcases Binary32.zero_of_beq h with rfl | rfl
          <;> rcases Binary32.zero_of_beq hz with rfl | rfl
          <;> decide +kernel
      · rw [if_neg h, if_pos hz]
    · show (if y == 0.0 then y else if z == 0.0 then _ else _)
        = if y == 0.0 then y else if (0.0 : Float32) == 0.0 then _ else _
      rw [hz]
      rfl
  have hs : ∀ k, |(s.values.get k).toInt| ≤ 2047 := by
    intro k
    cases k <;> decide
  have himg : ∀ p ∈ img.pixels, p.all (Scalar.within 0.0 1.0) := by
    intro p hp
    obtain rfl := Vector.eq_of_mem_replicate hp
    decide +kernel
  obtain ⟨out, hout, -, h⟩ :=
    skips_keep_the_front fns hexp2 (fun _ _ => rfl) s hs img himg (.inr hzero)
  exact ⟨out, hout, h 0 0 (by decide) (by decide)⟩

end HueSaturation
