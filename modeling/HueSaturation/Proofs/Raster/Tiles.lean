import HueSaturation.Proofs.Raster.Regions
import HueSaturation.Raster.Tiling

/-!
# Tiles cover an image

* `tileGrid`              the tiles of an image row by row; `tiles_eq_grid`;
* `contains_tileAt_iff`   the pixels of one tile, its origin and its sides being exact;
* `inside_of_mem_grid`    a tile lies inside the image;
* `exists_mem_grid`       every pixel lies in a tile.
-/

namespace HueSaturation

/-! ## the grid of tiles -/

theorem lt_div_iff_of_mod_eq_zero {n d i : Nat} (hd : 0 < d) (h : n % d = 0) :
    i < n / d ↔ i * d < n := by
  have h1 := Nat.div_add_mod n d
  rw [h, Nat.add_zero, Nat.mul_comm] at h1
  exact ⟨fun hi => h1 ▸ Nat.mul_lt_mul_of_pos_right hi hd,
    fun hi => Nat.lt_of_mul_lt_mul_right (h1.symm ▸ hi)⟩

theorem lt_div_succ_iff_of_mod_ne_zero {n d i : Nat} (hd : 0 < d) (h : n % d ≠ 0) :
    i < n / d + 1 ↔ i * d < n := by
  have h1 := Nat.div_add_mod n d
  have h2 := Nat.mod_lt n hd
  rw [Nat.mul_comm] at h1
  constructor
  · intro hi
    have h3 : i * d ≤ n / d * d := Nat.mul_le_mul_right d (Nat.le_of_lt_succ hi)
    omega
  · intro hi
    have h3 : i * d < (n / d + 1) * d := by
      rw [Nat.add_mul, Nat.one_mul]
      omega
    exact Nat.lt_of_mul_lt_mul_right h3

theorem toNat_min (a b : UInt32) : (min a b).toNat = min a.toNat b.toNat := by
  show (if a ≤ b then a else b).toNat = _
  split
  · next h => exact (Nat.min_eq_left (UInt32.le_iff_toNat_le.mp h)).symm
  · next h =>
    have h1 : ¬ a.toNat ≤ b.toNat := fun h1 => h (UInt32.le_iff_toNat_le.mpr h1)
    exact (Nat.min_eq_right (Nat.le_of_not_le h1)).symm

/-- A side that is no multiple of the edge has more pixels than whole tiles. -/
theorem toNat_div_lt {side edge : UInt32} (he : edge ≠ 0) (h : side % edge ≠ 0) :
    (side / edge).toNat < side.toNat := by
  have h0 := toNat_pos_of_ne_zero he
  have hdiv : (side / edge).toNat = side.toNat / edge.toNat := UInt32.toNat_div _ _
  have hmod : (side % edge).toNat = side.toNat % edge.toNat := UInt32.toNat_mod _ _
  have h1 := toNat_pos_of_ne_zero h
  have h2 := Nat.div_add_mod' side.toNat edge.toNat
  have h3 := Nat.le_mul_of_pos_right (side.toNat / edge.toNat) h0
  omega

/-- A tile begins on a side exactly while pixels are left there. -/
theorem lt_tileCount_iff {side edge : UInt32} (he : edge ≠ 0) {i : Nat} :
    i < (tileCount side edge).toNat ↔ i * edge.toNat < side.toNat := by
  have h0 := toNat_pos_of_ne_zero he
  have hdiv : (side / edge).toNat = side.toNat / edge.toNat := UInt32.toNat_div _ _
  have hmod : (side % edge).toNat = side.toNat % edge.toNat := UInt32.toNat_mod _ _
  unfold tileCount
  split
  · next h =>
    rw [hdiv]
    exact lt_div_iff_of_mod_eq_zero h0 (by rw [← hmod, h]; rfl)
  · next h =>
    have hz : side.toNat % edge.toNat ≠ 0 := fun hz =>
      h (UInt32.toNat_inj.mp (by rw [hmod, hz]; rfl))
    have hsum : (side / edge + 1).toNat = side.toNat / edge.toNat + 1 := by
      have h1 : (side / edge + 1).toNat = ((side / edge).toNat + 1) % 2 ^ 32 := UInt32.toNat_add _ _
      have h2 := toNat_div_lt he h
      have h3 := side.toNat_lt
      omega
    rw [hsum]
    exact lt_div_succ_iff_of_mod_ne_zero h0 hz

def tileGrid (size : Size) (edge : UInt32) : List Region :=
  (List.range (tileCount size.height edge).toNat).flatMap fun row =>
    (List.range (tileCount size.width edge).toNat).map fun column =>
      tileAt size edge (UInt32.ofNat column) (UInt32.ofNat row)

theorem tileCount_zero {edge : UInt32} (he : edge ≠ 0) : (tileCount 0 edge).toNat = 0 := by
  have h1 : 0 < (tileCount 0 edge).toNat ↔ 0 * edge.toNat < (0 : UInt32).toNat :=
    lt_tileCount_iff he
  exact Nat.eq_zero_of_not_pos fun h => absurd (h1.mp h) (Nat.not_lt_zero _)

theorem tiles_eq_grid (size : Size) {edge : UInt32} (he : edge ≠ 0) :
    tiles size edge = .ok (tileGrid size edge) := by
  rw [tiles, if_neg he]
  split
  · next h =>
    have hnil : tileGrid size edge = [] := by
      rcases Nat.mul_eq_zero.mp h with h | h
      · have hw : size.width = 0 := UInt32.toNat_inj.mp h
        simp [tileGrid, hw, tileCount_zero he]
      · have hh : size.height = 0 := UInt32.toNat_inj.mp h
        simp [tileGrid, hh, tileCount_zero he]
    rw [hnil]
  · rfl

theorem mem_tileGrid {size : Size} {edge : UInt32} (he : edge ≠ 0) {t : Region} :
    t ∈ tileGrid size edge ↔ ∃ column row, column * edge.toNat < size.width.toNat ∧
      row * edge.toNat < size.height.toNat ∧
      t = tileAt size edge (UInt32.ofNat column) (UInt32.ofNat row) := by
  simp only [tileGrid, List.mem_flatMap, List.mem_map, List.mem_range, lt_tileCount_iff he]
  constructor
  · rintro ⟨row, hr, column, hc, rfl⟩
    exact ⟨column, row, hc, hr, rfl⟩
  · rintro ⟨column, row, hc, hr, rfl⟩
    exact ⟨row, hr, column, hc, rfl⟩

/-! ## tiles lie inside the image and cover it -/

theorem toNat_tile_index {side edge : UInt32} (he : edge ≠ 0) {i : Nat}
    (hi : i * edge.toNat < side.toNat) : (UInt32.ofNat i).toNat = i := by
  have h1 : (UInt32.ofNat i).toNat = i % 2 ^ 32 := UInt32.toNat_ofNat'
  have h2 := Nat.le_mul_of_pos_right i (toNat_pos_of_ne_zero he)
  have h3 := side.toNat_lt
  rw [h1, Nat.mod_eq_of_lt (by omega)]

theorem toNat_tile_origin {side edge : UInt32} (he : edge ≠ 0) {i : Nat}
    (hi : i * edge.toNat < side.toNat) : (UInt32.ofNat i * edge).toNat = i * edge.toNat := by
  have h1 : (UInt32.ofNat i * edge).toNat = (UInt32.ofNat i).toNat * edge.toNat % 2 ^ 32 :=
    UInt32.toNat_mul _ _
  have h2 := side.toNat_lt
  rw [h1, toNat_tile_index he hi, Nat.mod_eq_of_lt (by omega)]

/-- The side of a tile: what is left of the image, at most the edge. -/
theorem toNat_tile_side {side edge : UInt32} (he : edge ≠ 0) {i : Nat}
    (hi : i * edge.toNat < side.toNat) :
    (min (side - UInt32.ofNat i * edge) edge).toNat
      = min (side.toNat - i * edge.toNat) edge.toNat := by
  have h1 := toNat_tile_origin he hi
  have h2 : UInt32.ofNat i * edge ≤ side := UInt32.le_iff_toNat_le.mpr (by omega)
  rw [toNat_min, UInt32.toNat_sub_of_le _ _ h2, h1]

theorem inside_of_mem_grid {size : Size} {edge : UInt32} (he : edge ≠ 0) {t : Region}
    (ht : t ∈ tileGrid size edge) : t.Inside size := by
  obtain ⟨column, row, hc, hr, rfl⟩ := (mem_tileGrid he).mp ht
  have h1 := toNat_tile_origin he hc
  have h2 := toNat_tile_origin he hr
  have h3 := toNat_tile_side he hc
  have h4 := toNat_tile_side he hr
  constructor
  · show (UInt32.ofNat column * edge).toNat
        + (min (size.width - UInt32.ofNat column * edge) edge).toNat
      ≤ size.width.toNat
    omega
  · show (UInt32.ofNat row * edge).toNat + (min (size.height - UInt32.ofNat row * edge) edge).toNat
      ≤ size.height.toNat
    omega

/-- The pixels of a tile, its origin and its sides being exact. -/
theorem contains_tileAt_iff {size : Size} {edge : UInt32} (he : edge ≠ 0) {column row : Nat}
    (hc : column * edge.toNat < size.width.toNat) (hr : row * edge.toNat < size.height.toNat)
    {x y : Nat} : (tileAt size edge (UInt32.ofNat column) (UInt32.ofNat row)).Contains x y ↔
      (column * edge.toNat ≤ x ∧ x < column * edge.toNat
        + min (size.width.toNat - column * edge.toNat) edge.toNat) ∧
      row * edge.toNat ≤ y ∧ y < row * edge.toNat
        + min (size.height.toNat - row * edge.toNat) edge.toNat := by
  rw [← toNat_tile_side he hc, ← toNat_tile_side he hr, ← toNat_tile_origin he hc,
    ← toNat_tile_origin he hr]
  exact Iff.rfl

/-- A pixel of a side lies in the tile that its distance from the origin counts to. -/
theorem tile_bounds {side edge : UInt32} (he : edge ≠ 0) {x : Nat} (hx : x < side.toNat) :
    x / edge.toNat * edge.toNat < side.toNat ∧ x / edge.toNat * edge.toNat ≤ x ∧
      x < x / edge.toNat * edge.toNat
        + min (side.toNat - x / edge.toNat * edge.toNat) edge.toNat := by
  have h0 := toNat_pos_of_ne_zero he
  have h1 := Nat.div_add_mod' x edge.toNat
  have h2 := Nat.mod_lt x h0
  omega

theorem exists_mem_grid {size : Size} {edge : UInt32} (he : edge ≠ 0) {x y : Nat}
    (hx : x < size.width.toNat) (hy : y < size.height.toNat) :
    ∃ t ∈ tileGrid size edge, t.Contains x y := by
  obtain ⟨hc, hx1, hx2⟩ := tile_bounds he hx
  obtain ⟨hr, hy1, hy2⟩ := tile_bounds he hy
  exact ⟨_, (mem_tileGrid he).mpr ⟨_, _, hc, hr, rfl⟩,
    (contains_tileAt_iff he hc hr).mpr ⟨⟨hx1, hx2⟩, hy1, hy2⟩⟩

end HueSaturation
