import HueSaturation.Proofs.Number.Exact
import HueSaturation.Color.Effect

/-!
# Color matrices as affine maps

A color matrix acts on the points `(r, g, b, 1)`. The matrices of effects keep the last coordinate:
their last row is `(0, 0, 0, 1)`, and products of such matrices have that row again. Of such a
matrix the three rows that are applied to pixels say everything, and a product is one after the
other.

* `ColorMatrix.toMatrix`        the entries: products, transposes and the identity are as usual;
* `ColorMatrix.Affine`          the last coordinate stays one;
* `ColorMatrix.mulVec_point`    the whole matrix on a point, against three rows on a pixel;
* `ColorMatrix.apply_mul`       a product applied is its factors applied in turn;
* `Effect.inTurn`               the effects of a list, one after the other;
* `ColorMatrix.ColumnProduct`   a product of matrices that are stored column by column;
* `matrix_is_effects_in_turn`   a composed matrix does what its effects do.
-/

namespace HueSaturation

open Matrix

/-! ## rows and points -/

namespace Rgb

def point (p : Rgb ℝ) : Fin 4 → ℝ :=
  ![p.r, p.g, p.b, 1]

theorem point_injective : Function.Injective point := by
  rintro ⟨r, g, b⟩ ⟨r', g', b'⟩ h
  have hr : r = r' := congrFun h 0
  have hg : g = g' := congrFun h 1
  have hb : b = b' := congrFun h 2
  rw [hr, hg, hb]

end Rgb

namespace Row

def entry (u : Row ℝ) : Fin 4 → ℝ :=
  ![u.r, u.g, u.b, u.c]

theorem entry_injective : Function.Injective entry := by
  rintro ⟨r, g, b, c⟩ ⟨r', g', b', c'⟩ h
  have hr : r = r' := congrFun h 0
  have hg : g = g' := congrFun h 1
  have hb : b = b' := congrFun h 2
  have hc : c = c' := congrFun h 3
  rw [hr, hg, hb, hc]

theorem dot_eq (u v : Row ℝ) : u.dot v = u.entry ⬝ᵥ v.entry := by
  rw [dotProduct, Fin.sum_univ_four]
  rfl

theorem eval_eq (u : Row ℝ) (p : Rgb ℝ) : u.eval p = u.entry ⬝ᵥ p.point := by
  rw [dotProduct, Fin.sum_univ_four]
  show u.r * p.r + u.g * p.g + u.b * p.b + u.c = u.r * p.r + u.g * p.g + u.b * p.b + u.c * 1
  rw [mul_one]

end Row

namespace ColorMatrix

variable {a b m : ColorMatrix ℝ} {p : Rgb ℝ}

/-! ## entries -/

def row (m : ColorMatrix ℝ) : Fin 4 → Row ℝ :=
  ![m.red, m.green, m.blue, m.one]

def toMatrix (m : ColorMatrix ℝ) : Matrix (Fin 4) (Fin 4) ℝ :=
  Matrix.of fun i => (m.row i).entry

theorem toMatrix_injective : Function.Injective toMatrix := by
  intro m n h
  have hrow (i : Fin 4) : m.row i = n.row i := Row.entry_injective (congrFun h i)
  have hred : m.red = n.red := hrow 0
  have hgreen : m.green = n.green := hrow 1
  have hblue : m.blue = n.blue := hrow 2
  have hone : m.one = n.one := hrow 3
  cases m
  cases n
  simp only [mk.injEq]
  exact ⟨hred, hgreen, hblue, hone⟩

theorem toMatrix_transpose (m : ColorMatrix ℝ) : m.transpose.toMatrix = m.toMatrixᵀ := by
  ext i j
  fin_cases i <;> fin_cases j <;> rfl

theorem row_mul (a b : ColorMatrix ℝ) (i : Fin 4) : (a * b).row i = rowTimes (a.row i) b := by
  fin_cases i <;> rfl

theorem entry_rowTimes (u : Row ℝ) (b : ColorMatrix ℝ) :
    (rowTimes u b).entry = u.entry ᵥ* b.toMatrix := by
  funext j
  have hcolumn : (b.transpose.row j).entry = fun i => b.toMatrix i j :=
    congrFun b.toMatrix_transpose j
  have hentry : (rowTimes u b).entry j = u.dot (b.transpose.row j) := by
    fin_cases j <;> rfl
  rw [hentry, Row.dot_eq, hcolumn]
  rfl

theorem toMatrix_mul (a b : ColorMatrix ℝ) : (a * b).toMatrix = a.toMatrix * b.toMatrix := by
  ext i j
  show ((a * b).row i).entry j = _
  rw [row_mul, entry_rowTimes, Matrix.mul_apply_eq_vecMul]
  rfl

theorem toMatrix_identity : (identity : ColorMatrix ℝ).toMatrix = 1 := by
  ext i j
  fin_cases i <;> fin_cases j <;> first | exact Exact.zero_eq | exact Exact.one_eq

/-- `times` is the product of matrices that are stored column by column. -/
def ColumnProduct (times : ColorMatrix ℝ → ColorMatrix ℝ → ColorMatrix ℝ) : Prop :=
  ∀ x y, (times x y).toMatrixᵀ = x.toMatrixᵀ * y.toMatrixᵀ

/-- Through the layout by columns and back the product is the same. -/
theorem ColumnProduct.transpose_eq {times : ColorMatrix ℝ → ColorMatrix ℝ → ColorMatrix ℝ}
    (h : ColumnProduct times) (a b : ColorMatrix ℝ) :
    (times a.transpose b.transpose).transpose = a * b := by
  apply toMatrix_injective
  rw [toMatrix_transpose, h, toMatrix_transpose, toMatrix_transpose, Matrix.transpose_transpose,
    Matrix.transpose_transpose, toMatrix_mul]

/-! ## composition -/

section
variable {fns : Library ℝ} (h : ColumnProduct fns.times)
include h

theorem ColumnProduct.compose_eq (first second : ColorMatrix ℝ) :
    fns.compose first second = second * first :=
  h.transpose_eq second first

theorem toMatrix_compose (first second : ColorMatrix ℝ) :
    (fns.compose first second).toMatrix = second.toMatrix * first.toMatrix := by
  rw [h.compose_eq, toMatrix_mul]

theorem compose_assoc (a b c : ColorMatrix ℝ) :
    fns.compose (fns.compose a b) c = fns.compose a (fns.compose b c) := by
  apply toMatrix_injective
  simp only [toMatrix_compose h, Matrix.mul_assoc]

theorem identity_compose (m : ColorMatrix ℝ) : fns.compose identity m = m := by
  apply toMatrix_injective
  rw [toMatrix_compose h, toMatrix_identity, Matrix.mul_one]

theorem compose_identity (m : ColorMatrix ℝ) : fns.compose m identity = m := by
  apply toMatrix_injective
  rw [toMatrix_compose h, toMatrix_identity, Matrix.one_mul]

end

/-! ## affine matrices -/

/-- The last row leaves the last coordinate of a point at one. -/
def Affine (m : ColorMatrix ℝ) : Prop :=
  m.one = ⟨0, 0, 0, 1⟩

theorem entry_one (hm : m.Affine) : m.one.entry = Pi.single 3 1 := by
  rw [hm]
  funext j
  fin_cases j <;> rfl

/-- Dropping the last row of an affine matrix loses nothing. -/
theorem mulVec_point (hm : m.Affine) (p : Rgb ℝ) : m.toMatrix *ᵥ p.point = (m.apply p).point := by
  have hrow (i : Fin 4) : (m.toMatrix *ᵥ p.point) i = (m.row i).eval p := (Row.eval_eq _ _).symm
  have hlast : m.one.eval p = 1 := by
    rw [Row.eval_eq, entry_one hm, single_one_dotProduct]
    rfl
  funext i
  rw [hrow]
  fin_cases i
  · rfl
  · rfl
  · rfl
  · exact hlast

theorem Affine.mul (ha : a.Affine) (hb : b.Affine) : (a * b).Affine := by
  have hone : rowTimes a.one b = b.one := by
    apply Row.entry_injective
    rw [entry_rowTimes, entry_one ha, single_one_vecMul]
    rfl
  exact hone.trans hb

theorem eval_rowTimes (hb : b.Affine) (u : Row ℝ) (p : Rgb ℝ) :
    (rowTimes u b).eval p = u.eval (b.apply p) := by
  rw [Row.eval_eq, entry_rowTimes, ← dotProduct_mulVec, mulVec_point hb, ← Row.eval_eq]

/-- Only the factor that is applied first has to be affine. -/
theorem apply_mul (a : ColorMatrix ℝ) (hb : b.Affine) (p : Rgb ℝ) :
    (a * b).apply p = a.apply (b.apply p) := by
  have hred := eval_rowTimes hb a.red p
  have hgreen := eval_rowTimes hb a.green p
  have hblue := eval_rowTimes hb a.blue p
  show Rgb.mk _ _ _ = Rgb.mk _ _ _
  rw [Rgb.mk.injEq]
  exact ⟨hred, hgreen, hblue⟩

theorem affine_diagonal (x y z : ℝ) : (diagonal x y z).Affine := by
  simp only [Affine, diagonal, Exact.zero_eq, Exact.one_eq]

theorem affine_identity : (identity : ColorMatrix ℝ).Affine :=
  affine_diagonal 1.0 1.0 1.0

theorem identity_apply (p : Rgb ℝ) : identity.apply p = p := by
  apply Rgb.point_injective
  rw [← mulVec_point affine_identity, toMatrix_identity, one_mulVec]

/-- The matrix does with every pixel what `f` does, and its last row is not missed. -/
structure Performs (m : ColorMatrix ℝ) (f : Rgb ℝ → Rgb ℝ) : Prop where
  one_eq : m.one = ⟨0, 0, 0, 1⟩
  point_eq : ∀ p, m.toMatrix *ᵥ p.point = (m.apply p).point
  apply_eq : ∀ p, m.apply p = f p

end ColorMatrix

/-! ## effects -/

namespace Effect

/-- The pixel that the effects of a list make of `p`, each by its own matrix, first to last. -/
noncomputable def inTurn (fns : Elementary ℝ) (es : List (Effect ℝ)) (p : Rgb ℝ) : Rgb ℝ :=
  es.foldl (fun q e => (e.matrix fns).apply q) p

theorem inTurn_cons (fns : Elementary ℝ) (e : Effect ℝ) (es : List (Effect ℝ)) (p : Rgb ℝ) :
    inTurn fns (e :: es) p = inTurn fns es ((e.matrix fns).apply p) :=
  rfl

theorem affine_matrix (fns : Elementary ℝ) (e : Effect ℝ) : (e.matrix fns).Affine := by
  have hlast : (⟨0.0, 0.0, 0.0, 1.0⟩ : Row ℝ) = ⟨0, 0, 0, 1⟩ := by
    rw [Exact.zero_eq, Exact.one_eq]
  cases e with
  | saturate k => exact hlast
  | scale r g b => exact hlast
  | contrast amount luminosity =>
    show (ColorMatrix.contrast fns amount luminosity).one = _
    unfold ColorMatrix.contrast
    simp only []
    split
    · exact hlast
    · exact hlast

section
variable {fns : Library ℝ} (h : ColorMatrix.ColumnProduct fns.times) {m : ColorMatrix ℝ}
include h

theorem affine_after (hm : m.Affine) (e : Effect ℝ) : (after fns m e).Affine := by
  rw [after, h.compose_eq]
  exact (affine_matrix fns e).mul hm

theorem apply_after (hm : m.Affine) (e : Effect ℝ) (p : Rgb ℝ) :
    (after fns m e).apply p = (e.matrix fns).apply (m.apply p) := by
  rw [after, h.compose_eq]
  exact ColorMatrix.apply_mul _ hm p

theorem affine_compose (hm : m.Affine) (es : List (Effect ℝ)) : (compose fns m es).Affine := by
  -- over the effects, with what is composed so far as the matrix that the rest starts from
  induction es generalizing m with
  | nil => exact hm
  | cons e es ih =>
    rw [compose_cons]
    exact ih (affine_after h hm e)

theorem apply_compose (hm : m.Affine) (es : List (Effect ℝ)) (p : Rgb ℝ) :
    (compose fns m es).apply p = inTurn fns es (m.apply p) := by
  induction es generalizing m with
  | nil => rfl
  | cons e es ih => rw [compose_cons, ih (affine_after h hm e), apply_after h hm, inTurn_cons]

theorem compose_performs (hm : m.Affine) (es : List (Effect ℝ)) :
    (compose fns m es).Performs fun p => inTurn fns es (m.apply p) where
  one_eq := affine_compose h hm es
  point_eq := ColorMatrix.mulVec_point (affine_compose h hm es)
  apply_eq := apply_compose h hm es

end
end Effect

/-- The functions on the real numbers, and a product of matrices that are stored column by column.
-/
noncomputable def Library.real : Library ℝ :=
  { Elementary.real with times := fun x y => y * x }

theorem columnProduct_real : ColorMatrix.ColumnProduct Library.real.times := by
  intro x y
  show (y * x).toMatrixᵀ = _
  rw [ColorMatrix.toMatrix_mul, Matrix.transpose_mul]

/-- **A composed matrix does what its effects do.** From an affine matrix on, or from the identity,
any list of effects composes to an affine matrix, and its three rows do with every pixel what the
matrices of the effects do in turn. Composition is the product of matrices, associative, with the
identity neutral on either side, and is the same for every product of matrices that are stored
column by column. -/
theorem matrix_is_effects_in_turn (fns : Library ℝ)
    (hproduct : ColorMatrix.ColumnProduct fns.times) :
    (∀ es, (Effect.compose fns .identity es).Performs (Effect.inTurn fns es)) ∧
    (∀ m : ColorMatrix ℝ, m.Affine → ∀ es,
      (Effect.compose fns m es).Performs fun p => Effect.inTurn fns es (m.apply p)) ∧
    (∀ a b c, fns.compose (fns.compose a b) c = fns.compose a (fns.compose b c)) ∧
    (∀ m, fns.compose .identity m = m ∧ fns.compose m .identity = m) ∧
    (∀ a b, (fns.compose a b).toMatrix = b.toMatrix * a.toMatrix) ∧
    (∀ times, ColorMatrix.ColumnProduct times → ∀ a b : ColorMatrix ℝ,
      (times b.transpose a.transpose).transpose = fns.compose a b) := by
  refine ⟨fun es => ?_, fun m hm es => Effect.compose_performs hproduct hm es,
    ColorMatrix.compose_assoc hproduct, fun m => ⟨ColorMatrix.identity_compose hproduct m,
      ColorMatrix.compose_identity hproduct m⟩, ColorMatrix.toMatrix_compose hproduct,
    fun times h a b => (h.transpose_eq b a).trans (hproduct.compose_eq a b).symm⟩
  have hrun := Effect.compose_performs hproduct ColorMatrix.affine_identity es
  simp only [ColorMatrix.identity_apply] at hrun
  exact hrun

/-- An offset in red, then each channel scaled, then all color taken away. -/
theorem effects_after_offset :
    let m : ColorMatrix ℝ := ⟨⟨1, 0, 0, 1 / 2⟩, ⟨0, 1, 0, 0⟩, ⟨0, 0, 1, 0⟩, ⟨0, 0, 0, 1⟩⟩
    ColorMatrix.ColumnProduct Library.real.times ∧ m.Affine ∧
    (Effect.compose .real m [.scale 2 3 4, .saturate 0]).apply ⟨1, 1, 1⟩ = .gray 3.0722 ∧
    (Library.real.times (ColorMatrix.diagonal 2 3 4).transpose m.transpose).transpose
      = Library.real.compose m (.diagonal 2 3 4) := by
  intro m
  obtain ⟨-, hrun, -, -, -, hcolumns⟩ := matrix_is_effects_in_turn .real columnProduct_real
  have hm : m.Affine := rfl
  refine ⟨columnProduct_real, hm, ?_, hcolumns _ columnProduct_real m (.diagonal 2 3 4)⟩
  rw [(hrun m hm [.scale 2 3 4, .saturate 0]).apply_eq]
  simp only [Effect.inTurn, List.foldl_cons, List.foldl_nil, Effect.matrix, ColorMatrix.apply,
    BandMatrix.apply, ColorMatrix.band, ColorMatrix.saturation, ColorMatrix.diagonal, Row.eval, m,
    Rgb.gray, Rgb.mk.injEq]
  norm_num

end HueSaturation
