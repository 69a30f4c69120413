import HueSaturation.Raster.PixelBuffer

/-!
# Pixels by their coordinates

An image is determined by its size and the pixel at every coordinate.  Every operation on images
is stated here by what it does to these:

* `Image.at? img x y`   the pixel at `(x, y)`, `none` outside the image; `Image.ext_at?`;
* `Image.cut`           a region inside an image, as an image;
* `Image.inlay`         an image put into another one;
* `at?_cut`, `at?_map`, `at?_zip`, `at?_inlay_of_contains`   the pixels of the results;
* `cut_map`             a pixelwise operation may be done before or after cutting.
-/

namespace HueSaturation

/-! ## places and coordinates -/

namespace Size

theorem place_lt_iff {s : Size} {x y : Nat} (hx : x < s.width.toNat) :
    y * s.width.toNat + x < s.area ↔ y < s.height.toNat := by
  refine ⟨fun h => ?_, fun hy => index_lt hx hy⟩
  have h1 : y * s.width.toNat < s.height.toNat * s.width.toNat := by
    rw [Nat.mul_comm s.height.toNat]
    exact Nat.lt_of_le_of_lt (Nat.le_add_right _ _) h
  exact Nat.lt_of_mul_lt_mul_right h1

theorem place_row {w x y : Nat} (hx : x < w) : (y * w + x) / w = y := by
  rw [Nat.add_comm, Nat.add_mul_div_right _ _ (by omega), Nat.div_eq_of_lt hx, Nat.zero_add]

theorem place_column {w x y : Nat} (hx : x < w) : (y * w + x) % w = x := by
  rw [Nat.add_comm, Nat.add_mul_mod_self_right, Nat.mod_eq_of_lt hx]

theorem place_inj {w x y x' y' : Nat} (hx : x < w) (hx' : x' < w)
    (h : y * w + x = y' * w + x') : x = x' ∧ y = y' := by
  constructor
  · rw [← place_column (y := y) hx, h, place_column hx']
  · rw [← place_row (y := y) hx, h, place_row hx']

end Size

namespace Image

variable {π ρ σ : Type}

/-- The pixel at `(x, y)`; `none` outside the image. -/
def at? (img : Image π) (x y : Nat) : Option π :=
  if x < img.width.toNat then img.pixels[y * img.width.toNat + x]? else none

theorem at?_of_lt (img : Image π) {x y : Nat} (hx : x < img.width.toNat)
    (hy : y < img.height.toNat) :
    img.at? x y = some (img.pixels.get ⟨y * img.width.toNat + x, Size.index_lt hx hy⟩) := by
  rw [at?, if_pos hx, Vector.getElem?_eq_getElem (Size.index_lt hx hy)]
  rfl

theorem at?_of_not_lt (img : Image π) {x y : Nat}
    (h : ¬ (x < img.width.toNat ∧ y < img.height.toNat)) : img.at? x y = none := by
  rw [at?]
  split
  · next hx =>
    rw [Vector.getElem?_eq_none_iff, ← Nat.not_lt, Size.place_lt_iff hx]
    exact fun hy => h ⟨hx, hy⟩
  · rfl

theorem ext_at? {a b : Image π} (hs : a.toSize = b.toSize)
    (h : ∀ x y, x < a.width.toNat → y < a.height.toNat → a.at? x y = b.at? x y) : a = b := by
  obtain ⟨s, u⟩ := a
  obtain ⟨t, v⟩ := b
  have hst : s = t := hs
  subst hst
  congr 1
  apply Vector.ext
  intro i hi
  have hx : i % s.width.toNat < s.width.toNat := Size.column_lt hi
  have hy : i / s.width.toNat < s.height.toNat := Size.row_lt hi
  have hi' : i / s.width.toNat * s.width.toNat + i % s.width.toNat = i := by
    rw [Nat.mul_comm, Nat.div_add_mod]
  have h1 := h _ _ hx hy
  rw [at?_of_lt _ hx hy, at?_of_lt _ hx hy] at h1
  have h2 := Option.some.inj h1
  simp only [hi'] at h2
  exact h2

/-- Images of one size are equal in the sense of their pixels if every two pixels are. -/
theorem beq_of_at? [BEq π] {a b : Image π} (hs : a.toSize = b.toSize)
    (h : ∀ x y, x < a.width.toNat → y < a.height.toNat →
      ∃ p q, a.at? x y = some p ∧ b.at? x y = some q ∧ p == q) : a == b := by
  obtain ⟨s, u⟩ := a
  obtain ⟨t, v⟩ := b
  obtain rfl : s = t := hs
  show (s == s && u.toArray == v.toArray) = true
  rw [beq_self_eq_true, Bool.true_and]
  show Array.isEqv u.toArray v.toArray (· == ·) = true
  rw [Array.isEqv_iff_rel]
  refine ⟨u.size_toArray.trans v.size_toArray.symm, fun i hi => ?_⟩
  have hi' : i < s.area := u.size_toArray ▸ hi
  have hx : i % s.width.toNat < s.width.toNat := Size.column_lt hi'
  have hy : i / s.width.toNat < s.height.toNat := Size.row_lt hi'
  obtain ⟨p, q, hp, hq, hpq⟩ := h _ _ hx hy
  rw [at?_of_lt _ hx hy] at hp hq
  have hplace : i / s.width.toNat * s.width.toNat + i % s.width.toNat = i := by
    rw [Nat.mul_comm, Nat.div_add_mod]
  obtain rfl := Option.some.inj hp
  obtain rfl := Option.some.inj hq
  simp only [hplace] at hpq
  exact hpq

@[simp] theorem at?_map (f : π → ρ) (img : Image π) (x y : Nat) :
    (img.map f).at? x y = (img.at? x y).map f := by
  show (if x < img.width.toNat then _ else none)
    = Option.map f (if x < img.width.toNat then _ else none)
  split
  · exact Vector.getElem?_map
  · rfl

theorem at?_zip (f : π → ρ → σ) (a : Image π) (b : Image ρ) (h : b.toSize = a.toSize)
    {x y : Nat} (hx : x < a.width.toNat) (hy : y < a.height.toNat) :
    (a.zip f b h).at? x y = (a.at? x y).bind fun p => (b.at? x y).map (f p) := by
  obtain ⟨s, u⟩ := a
  obtain ⟨t, v⟩ := b
  have hst : t = s := h
  subst hst
  have h1 := at?_of_lt ⟨t, u⟩ hx hy
  have h2 := at?_of_lt ⟨t, v⟩ hx hy
  rw [h1, h2, at?_of_lt (zip f ⟨t, u⟩ ⟨t, v⟩ h) hx hy]
  exact congrArg some (Vector.getElem_zipWith _)

theorem toSize_map (f : π → ρ) (img : Image π) : (img.map f).toSize = img.toSize := rfl

theorem map_map (f : π → ρ) (g : ρ → σ) (img : Image π) :
    (img.map f).map g = img.map fun p => g (f p) := by
  refine ext_at? rfl fun x y _ _ => ?_
  rw [at?_map, at?_map, at?_map, Option.map_map]
  rfl

theorem map_of_forall_eq {f : π → π} (hf : ∀ p, f p = p) (img : Image π) : img.map f = img := by
  refine ext_at? rfl fun x y _ _ => ?_
  rw [at?_map, funext hf, Option.map_id']

/-! ## a region of an image -/

end Image

namespace Region

/-- Where the `i`-th pixel of a region stands in an image of width `w`. -/
def index (r : Region) (w : UInt32) (i : Nat) : Nat :=
  (r.y.toNat + i / r.width.toNat) * w.toNat + (r.x.toNat + i % r.width.toNat)

theorem index_lt {r : Region} {s : Size} (h : r.Inside s) {i : Nat} (hi : i < r.area) :
    r.index s.width i < s.area := by
  have h1 := Size.column_lt hi
  have h2 := Size.row_lt hi
  exact Size.index_lt (by have := h.1; omega) (by have := h.2; omega)

theorem index_eq_place {r : Region} (w : UInt32) {x y : Nat} (hx : x < r.width.toNat) :
    r.index w (y * r.width.toNat + x) = (r.y.toNat + y) * w.toNat + (r.x.toNat + x) := by
  rw [index, Size.place_row hx, Size.place_column hx]

theorem index_inj {r : Region} {s : Size} (h : r.Inside s) {i j : Nat} (hi : i < r.area)
    (hj : j < r.area) (hij : r.index s.width i = r.index s.width j) : i = j := by
  have h1 := Size.column_lt hi
  have h2 := Size.column_lt hj
  have h3 := h.1
  obtain ⟨hc, hr⟩ := Size.place_inj (by omega) (by omega) hij
  rw [← Nat.div_add_mod i r.width.toNat, ← Nat.div_add_mod j r.width.toNat]
  rw [Nat.add_left_cancel hc, Nat.add_left_cancel hr]

theorem index_ne_place {r : Region} {s : Size} (h : r.Inside s) {i x y : Nat} (hi : i < r.area)
    (hx : x < s.width.toNat) (hout : ¬ r.Contains x y) :
    r.index s.width i ≠ y * s.width.toNat + x := by
  intro heq
  have h1 := Size.column_lt hi
  have h2 := Size.row_lt hi
  have h3 := h.1
  obtain ⟨hc, hr⟩ := Size.place_inj (by omega) hx heq
  subst hc hr
  exact hout ⟨⟨Nat.le_add_right _ _, Nat.add_lt_add_left h1 _⟩, Nat.le_add_right _ _,
    Nat.add_lt_add_left h2 _⟩

end Region

namespace Image

/-- The pixels of a region inside an image, as an image. -/
def cut (img : Image π) (r : Region) (h : r.Inside img.toSize) : Image π :=
  { r.toSize with
    pixels := Vector.ofFn fun i =>
      img.pixels.get ⟨r.index img.width i, Region.index_lt h i.2⟩ }

@[simp] theorem toSize_cut (img : Image π) (r : Region) (h : r.Inside img.toSize) :
    (img.cut r h).toSize = r.toSize := rfl

theorem at?_cut (img : Image π) (r : Region) (h : r.Inside img.toSize) {x y : Nat}
    (hx : x < r.width.toNat) (hy : y < r.height.toNat) :
    (img.cut r h).at? x y = img.at? (r.x.toNat + x) (r.y.toNat + y) := by
  have h1 : r.x.toNat + x < img.width.toNat := by have := h.1; omega
  have h2 : r.y.toNat + y < img.height.toNat := by have := h.2; omega
  rw [at?_of_lt img h1 h2, at?_of_lt (img.cut r h) hx hy]
  refine congrArg some ((Vector.getElem_ofFn _).trans ?_)
  exact congrArg img.pixels.get (Fin.ext (Region.index_eq_place img.width hx))

theorem at?_cut_of_contains (img : Image π) (r : Region) (h : r.Inside img.toSize) {x y : Nat}
    (hin : r.Contains x y) :
    (img.cut r h).at? (x - r.x.toNat) (y - r.y.toNat) = img.at? x y := by
  obtain ⟨⟨hx, hx'⟩, hy, hy'⟩ := hin
  rw [at?_cut img r h (by omega) (by omega), Nat.add_sub_of_le hx, Nat.add_sub_of_le hy]

theorem cut_map (f : π → ρ) (img : Image π) (r : Region) (h : r.Inside img.toSize) :
    (img.map f).cut r h = (img.cut r h).map f := by
  refine ext_at? rfl fun x y hx hy => ?_
  rw [at?_cut (img.map f) r h hx hy, at?_map, at?_map, at?_cut img r h hx hy]

/-! ## an image put into another one -/

/-- Writing values to distinct places one after the other: a place not written to keeps its value.
-/
theorem fold_set_of_forall_ne {n m : Nat} (place : (i : Nat) → i < n → Nat)
    (value : (i : Nat) → i < n → π) (hp : ∀ i hi, place i hi < m) (v : Vector π m) {j : Nat}
    (hj : j < m) (hne : ∀ i hi, place i hi ≠ j) :
    (Nat.fold n (fun i hi v => v.set (place i hi) (value i hi) (hp i hi)) v)[j] = v[j] := by
  induction n with
  | zero => rfl
  | succ n ih =>
    rw [Nat.fold_succ]
    rw [Vector.getElem_set_ne _ _ (hne n (Nat.lt_succ_self n))]
    exact ih _ _ _ (fun i hi => hne i (Nat.lt_succ_of_lt hi))

/-- Writing values to distinct places one after the other: each place has its value in the end. -/
theorem fold_set_place {n m : Nat} (place : (i : Nat) → i < n → Nat)
    (value : (i : Nat) → i < n → π) (hp : ∀ i hi, place i hi < m) (v : Vector π m)
    (hinj : ∀ i hi j hj, place i hi = place j hj → i = j) {i : Nat} (hi : i < n) :
    (Nat.fold n (fun i hi v => v.set (place i hi) (value i hi) (hp i hi)) v).get
      ⟨place i hi, hp i hi⟩ = value i hi := by
  induction n with
  | zero => exact absurd hi (Nat.not_lt_zero i)
  | succ n ih =>
    simp only [Nat.fold_succ]
    rcases Nat.lt_succ_iff_lt_or_eq.mp hi with h | rfl
    · have hne : place n (Nat.lt_succ_self n) ≠ place i hi := fun h' =>
        Nat.ne_of_gt h (hinj _ _ _ _ h')
      refine (Vector.getElem_set_ne _ _ hne).trans ?_
      exact ih (fun i hi => place i (Nat.lt_succ_of_lt hi))
        (fun i hi => value i (Nat.lt_succ_of_lt hi)) _ (fun i hi j hj => hinj i _ j _) h
    · exact Vector.getElem_set_self _

/-- The image with the pixels of `tile` from `(x, y)` on. -/
def inlay (img tile : Image π) (x y : UInt32) (h : (tile.footprint x y).Inside img.toSize) :
    Image π :=
  { img with
    pixels := Nat.fold tile.area
      (fun i hi pixels => pixels.set ((tile.footprint x y).index img.width i) tile.pixels[i]
        (Region.index_lt h hi))
      img.pixels }

theorem at?_inlay_of_contains (img tile : Image π) {x y : UInt32}
    (h : (tile.footprint x y).Inside img.toSize) {i j : Nat}
    (hin : (tile.footprint x y).Contains i j) :
    (img.inlay tile x y h).at? i j = tile.at? (i - x.toNat) (j - y.toNat) := by
  obtain ⟨⟨hx, hx'⟩, hy, hy'⟩ := hin
  have hx1 : x.toNat ≤ i := hx
  have hy1 : y.toNat ≤ j := hy
  have hx2 : i < x.toNat + tile.width.toNat := hx'
  have hy2 : j < y.toNat + tile.height.toNat := hy'
  have hx3 : x.toNat + tile.width.toNat ≤ img.width.toNat := h.1
  have hy3 : y.toNat + tile.height.toNat ≤ img.height.toNat := h.2
  have hw : i - x.toNat < tile.width.toNat := by omega
  have hh : j - y.toNat < tile.height.toNat := by omega
  have hplace : j * img.width.toNat + i = (tile.footprint x y).index img.width
      ((j - y.toNat) * tile.width.toNat + (i - x.toNat)) := by
    refine Eq.trans ?_ (Region.index_eq_place img.width (r := tile.footprint x y) hw).symm
    show _ = (y.toNat + (j - y.toNat)) * _ + (x.toNat + (i - x.toNat))
    rw [Nat.add_sub_of_le hx1, Nat.add_sub_of_le hy1]
  rw [at?_of_lt tile hw hh, at?_of_lt (img.inlay tile x y h) (by show i < img.width.toNat; omega)
    (by show j < img.height.toNat; omega)]
  refine congrArg some ?_
  refine Eq.trans ?_ (fold_set_place (fun i _ => (tile.footprint x y).index img.width i)
    (fun i _ => tile.pixels[i]) (fun i hi => Region.index_lt h hi) img.pixels
    (fun i hi j hj => Region.index_inj h hi hj) (Size.index_lt hw hh))
  exact congrArg (img.inlay tile x y h).pixels.get (Fin.ext hplace)

theorem at?_inlay_of_not_contains (img tile : Image π) {x y : UInt32}
    (h : (tile.footprint x y).Inside img.toSize) {i j : Nat}
    (hout : ¬ (tile.footprint x y).Contains i j) :
    (img.inlay tile x y h).at? i j = img.at? i j := by
  by_cases hij : i < img.width.toNat ∧ j < img.height.toNat
  · rw [at?_of_lt img hij.1 hij.2, at?_of_lt (img.inlay tile x y h) hij.1 hij.2]
    exact congrArg some (fold_set_of_forall_ne (fun i _ => (tile.footprint x y).index img.width i)
      (fun i _ => tile.pixels[i]) (fun i hi => Region.index_lt h hi) img.pixels
      (Size.index_lt hij.1 hij.2) (fun i hi => Region.index_ne_place h hi hij.1 hout))
  · rw [at?_of_not_lt img hij, at?_of_not_lt (img.inlay tile x y h) hij]

@[simp] theorem toSize_inlay (img tile : Image π) {x y : UInt32}
    (h : (tile.footprint x y).Inside img.toSize) :
    (img.inlay tile x y h).toSize = img.toSize := rfl

end Image
end HueSaturation
