import HueSaturation.Proofs.Raster.Tiles

/-!
# The tiles are a partition of the image

* `Checked.tiles`          the tiles by operations on words that give nothing where they would
                           leave the words; `Checked.tiles_eq`: none of them does;
* `eq_of_mem_grid`         two tiles do not share a pixel;
* `pairwise_before_grid`   the tiles are listed row by row, each only once;
* `length_grid`            how many there are;
* `tiles_partition_image`  all of it together.
-/

namespace HueSaturation

/-! ## tiles without wrapping

Sums, differences and products here give nothing where the exact result is no word. -/

namespace Checked

def add (a b : UInt32) : Option UInt32 :=
  if a.toNat + b.toNat < 0x100000000 then some (a + b) else none

def sub (a b : UInt32) : Option UInt32 :=
  if b.toNat ≤ a.toNat then some (a - b) else none

def mul (a b : UInt32) : Option UInt32 :=
  if a.toNat * b.toNat < 0x100000000 then some (a * b) else none

def tileCount (side edge : UInt32) : Option UInt32 :=
  if side % edge = 0 then some (side / edge) else add (side / edge) 1

def tileAt (size : Size) (edge column row : UInt32) : Option Region := do
  let x ← mul column edge
  let y ← mul row edge
  let width ← sub size.width x
  let height ← sub size.height y
  return .of x y (min width edge) (min height edge)

def tiles (size : Size) (edge : UInt32) : Option (List Region) := do
  let columns ← tileCount size.width edge
  let rows ← tileCount size.height edge
  let grid ← (List.range rows.toNat).mapM fun row =>
    (List.range columns.toNat).mapM fun column =>
      tileAt size edge (UInt32.ofNat column) (UInt32.ofNat row)
  return grid.flatten

theorem tileCount_eq {side edge : UInt32} (he : edge ≠ 0) :
    tileCount side edge = some (HueSaturation.tileCount side edge) := by
  rw [tileCount, HueSaturation.tileCount]
  split
  · rfl
  · next h =>
    have h1 := toNat_div_lt he h
    have h2 := side.toNat_lt
    have h3 : (1 : UInt32).toNat = 1 := rfl
    exact if_pos (by omega)

/-- The origin of a tile is a word on the side, and the rest of the side is one. -/
theorem origin_eq {side edge : UInt32} (he : edge ≠ 0) {i : Nat}
    (hi : i * edge.toNat < side.toNat) :
    mul (UInt32.ofNat i) edge = some (UInt32.ofNat i * edge) ∧
      sub side (UInt32.ofNat i * edge) = some (side - UInt32.ofNat i * edge) := by
  have h1 := side.toNat_lt
  constructor
  · refine if_pos ?_
    rw [toNat_tile_index he hi]
    omega
  · refine if_pos ?_
    rw [toNat_tile_origin he hi]
    exact Nat.le_of_lt hi

theorem tileAt_eq {size : Size} {edge : UInt32} (he : edge ≠ 0) {column row : Nat}
    (hc : column * edge.toNat < size.width.toNat) (hr : row * edge.toNat < size.height.toNat) :
    tileAt size edge (UInt32.ofNat column) (UInt32.ofNat row)
      = some (HueSaturation.tileAt size edge (UInt32.ofNat column) (UInt32.ofNat row)) := by
  obtain ⟨hx, hwidth⟩ := origin_eq he hc
  obtain ⟨hy, hheight⟩ := origin_eq he hr
  simp only [tileAt, Option.bind_eq_bind, hx, hy, Option.bind_some, hwidth, hheight]
  rfl

theorem mapM_eq_map {α β : Type} {f : α → Option β} {g : α → β} {l : List α}
    (h : ∀ a ∈ l, f a = some (g a)) : l.mapM f = some (l.map g) := by
  induction l with
  | nil => rfl
  | cons a l ih =>
    rw [List.mapM_cons, h a List.mem_cons_self, ih fun b hb => h b (List.mem_cons_of_mem _ hb)]
    rfl

/-- **No operation leaves the words** while the tiles are listed. -/
theorem tiles_eq (size : Size) {edge : UInt32} (he : edge ≠ 0) :
    tiles size edge = some (tileGrid size edge) := by
  have hrow : ∀ row ∈ List.range (HueSaturation.tileCount size.height edge).toNat,
      ((List.range (HueSaturation.tileCount size.width edge).toNat).mapM fun column =>
        tileAt size edge (UInt32.ofNat column) (UInt32.ofNat row))
      = some ((List.range (HueSaturation.tileCount size.width edge).toNat).map fun column =>
        HueSaturation.tileAt size edge (UInt32.ofNat column) (UInt32.ofNat row)) := by
    intro row hr
    refine mapM_eq_map fun column hc => tileAt_eq he ?_ ?_
    · exact (lt_tileCount_iff he).mp (List.mem_range.mp hc)
    · exact (lt_tileCount_iff he).mp (List.mem_range.mp hr)
  have hgrid := mapM_eq_map hrow
  simp only [tiles, tileCount_eq he, Option.bind_eq_bind, Option.bind_some, hgrid]
  rfl

end Checked

/-! ## one tile for each pixel -/

/-- A pixel lies in the tile that its quotient by the edge counts to, and in no other one. -/
theorem eq_div_of_tile_bounds {edge x i n : Nat} (h1 : i * edge ≤ x)
    (h2 : x < i * edge + min n edge) : i = x / edge := by
  refine (Nat.div_eq_of_lt_le h1 ?_).symm
  rw [Nat.add_mul, Nat.one_mul]
  omega

theorem eq_of_mem_grid {size : Size} {edge : UInt32} (he : edge ≠ 0) {s t : Region} {x y : Nat}
    (hs : s ∈ tileGrid size edge) (ht : t ∈ tileGrid size edge) (hsc : s.Contains x y)
    (htc : t.Contains x y) : s = t := by
  have hplace : ∀ t ∈ tileGrid size edge, t.Contains x y → t =
      tileAt size edge (UInt32.ofNat (x / edge.toNat)) (UInt32.ofNat (y / edge.toNat)) := by
    intro t ht hc
    obtain ⟨column, row, hcol, hrow, rfl⟩ := (mem_tileGrid he).mp ht
    obtain ⟨⟨h1, h2⟩, h3, h4⟩ := (contains_tileAt_iff he hcol hrow).mp hc
    rw [eq_div_of_tile_bounds h1 h2, eq_div_of_tile_bounds h3 h4]
  rw [hplace s hs hsc, hplace t ht htc]

/-! ## the order of the tiles -/

/-- A region begins in a row further up than another one, or in the same row further left. -/
def Region.Before (s t : Region) : Prop :=
  s.y < t.y ∨ s.y = t.y ∧ s.x < t.x

theorem Region.Before.ne {s t : Region} (h : s.Before t) : s ≠ t := by
  rintro rfl
  exact h.elim (UInt32.lt_irrefl _) fun h => UInt32.lt_irrefl _ h.2

theorem tile_origin_lt {side edge : UInt32} (he : edge ≠ 0) {i j : Nat} (hij : i < j)
    (hj : j * edge.toNat < side.toNat) : UInt32.ofNat i * edge < UInt32.ofNat j * edge := by
  have h1 : i * edge.toNat < j * edge.toNat :=
    Nat.mul_lt_mul_of_pos_right hij (toNat_pos_of_ne_zero he)
  rw [UInt32.lt_iff_toNat_lt, toNat_tile_origin he (Nat.lt_trans h1 hj), toNat_tile_origin he hj]
  exact h1

theorem pairwise_before_grid (size : Size) {edge : UInt32} (he : edge ≠ 0) :
    (tileGrid size edge).Pairwise Region.Before := by
  rw [tileGrid, List.pairwise_flatMap]
  refine ⟨fun row _ => ?_, ?_⟩
  · rw [List.pairwise_map]
    refine List.pairwise_lt_range.imp_of_mem fun _ hj hij => .inr ⟨rfl, ?_⟩
    exact tile_origin_lt he hij ((lt_tileCount_iff he).mp (List.mem_range.mp hj))
  · refine List.pairwise_lt_range.imp_of_mem fun _ hj hij s hs t ht => .inl ?_
    obtain ⟨_, -, rfl⟩ := List.mem_map.mp hs
    obtain ⟨_, -, rfl⟩ := List.mem_map.mp ht
    exact tile_origin_lt he hij ((lt_tileCount_iff he).mp (List.mem_range.mp hj))

theorem nodup_grid (size : Size) {edge : UInt32} (he : edge ≠ 0) : (tileGrid size edge).Nodup :=
  (pairwise_before_grid size he).imp Region.Before.ne

/-- Every pixel of the image lies in one entry of the list of tiles. -/
theorem countP_contains_grid {size : Size} {edge : UInt32} (he : edge ≠ 0) {x y : Nat}
    (hx : x < size.width.toNat) (hy : y < size.height.toNat) :
    (tileGrid size edge).countP (fun t => decide (t.Contains x y)) = 1 := by
  obtain ⟨t, ht, hc⟩ := exists_mem_grid he hx hy
  -- the tiles that contain the pixel are those equal to one, and that one is listed once
  have hone : ∀ s ∈ tileGrid size edge, decide (s.Contains x y) = true ↔ (s == t) = true := by
    intro s hs
    rw [decide_eq_true_iff, beq_iff_eq]
    exact ⟨fun hsc => eq_of_mem_grid he hs ht hsc hc, fun h => h ▸ hc⟩
  rw [List.countP_congr hone]
  exact (nodup_grid size he).count.trans (if_pos ht)

/-! ## the number of tiles -/

/-- A side has as many tiles as its length by the edge, rounded up. -/
theorem toNat_tileCount {side edge : UInt32} (he : edge ≠ 0) :
    (tileCount side edge).toNat = (side.toNat + (edge.toNat - 1)) / edge.toNat := by
  -- both numbers are found by the indices below them, those of the tiles that begin on the side
  have h0 := toNat_pos_of_ne_zero he
  have hceil : ∀ i, i < (side.toNat + (edge.toNat - 1)) / edge.toNat ↔
      i * edge.toNat < side.toNat := by
    intro i
    rw [Nat.lt_iff_add_one_le, Nat.le_div_iff_mul_le h0, Nat.add_mul, Nat.one_mul]
    omega
  have h1 : ∀ i, i < (tileCount side edge).toNat ↔
      i < (side.toNat + (edge.toNat - 1)) / edge.toNat :=
    fun i => (lt_tileCount_iff he).trans (hceil i).symm
  have h2 := h1 (tileCount side edge).toNat
  have h3 := h1 ((side.toNat + (edge.toNat - 1)) / edge.toNat)
  omega

theorem length_grid (size : Size) (edge : UInt32) : (tileGrid size edge).length
    = (tileCount size.height edge).toNat * (tileCount size.width edge).toNat := by
  simp only [tileGrid, List.length_flatMap, List.length_map, List.length_range, List.map_const',
    List.sum_replicate_nat]

theorem toNat_tileCount_eq_zero_iff {side edge : UInt32} (he : edge ≠ 0) :
    (tileCount side edge).toNat = 0 ↔ side = 0 := by
  have h1 : 0 < (tileCount side edge).toNat ↔ 0 * edge.toNat < side.toNat := lt_tileCount_iff he
  rw [← UInt32.toNat_inj, UInt32.toNat_zero]
  omega

theorem grid_eq_nil_iff {size : Size} {edge : UInt32} (he : edge ≠ 0) :
    tileGrid size edge = [] ↔ size.width = 0 ∨ size.height = 0 := by
  rw [← List.length_eq_zero_iff, length_grid, Nat.mul_eq_zero, toNat_tileCount_eq_zero_iff he,
    toNat_tileCount_eq_zero_iff he]
  exact Or.comm

theorem size_of_mem_grid {size : Size} {edge : UInt32} (he : edge ≠ 0) {t : Region}
    (ht : t ∈ tileGrid size edge) :
    0 < t.width ∧ 0 < t.height ∧ t.width ≤ edge ∧ t.height ≤ edge := by
  have h0 := toNat_pos_of_ne_zero he
  obtain ⟨column, row, hc, hr, rfl⟩ := (mem_tileGrid he).mp ht
  simp only [UInt32.lt_iff_toNat_lt, UInt32.le_iff_toNat_le, tileAt, Region.of,
    toNat_tile_side he hc, toNat_tile_side he hr, UInt32.toNat_zero]
  omega

/-- **The tiles are a partition of the image.**  For every size and every edge but zero the tiles
are listed without leaving the words; they are rows of regions inside the image that are not empty
and not larger than the edge, every pixel lies in one of them, and there are as many as the sides by
the edge, rounded up. -/
theorem tiles_partition_image (size : Size) (edge : UInt32) (he : edge ≠ 0) :
    ∃ grid, tiles size edge = .ok grid ∧ Checked.tiles size edge = some grid ∧
      (∀ t ∈ grid, (0 < t.width ∧ 0 < t.height ∧ t.width ≤ edge ∧ t.height ≤ edge) ∧
        t.Inside size) ∧
      (∀ x y, x < size.width.toNat → y < size.height.toNat →
        grid.countP (fun t => decide (t.Contains x y)) = 1) ∧
      grid.Pairwise Region.Before ∧
      grid.length = (size.width.toNat + (edge.toNat - 1)) / edge.toNat
        * ((size.height.toNat + (edge.toNat - 1)) / edge.toNat) ∧
      (grid = [] ↔ size.width = 0 ∨ size.height = 0) := by
  refine ⟨tileGrid size edge, tiles_eq_grid size he, Checked.tiles_eq size he, fun t ht => ?_,
    fun x y hx hy => countP_contains_grid he hx hy, pairwise_before_grid size he, ?_,
    grid_eq_nil_iff he⟩
  · exact ⟨size_of_mem_grid he ht, inside_of_mem_grid he ht⟩
  · rw [length_grid, toNat_tileCount he, toNat_tileCount he, Nat.mul_comm]

/-- Tiles with the edge `0x80000000` on the longest side that there is: two, the second one cut. -/
theorem tiles_of_longest_row : (0x80000000 : UInt32) ≠ 0 ∧ ∃ grid,
    tiles ⟨0xffffffff, 1⟩ 0x80000000 = .ok grid ∧ grid.length = 2 ∧
      grid.countP (fun t => decide (t.Contains 0xfffffffe 0)) = 1 := by
  obtain ⟨grid, hgrid, -, -, hcount, -, hlength, -⟩ :=
    tiles_partition_image ⟨0xffffffff, 1⟩ 0x80000000 (by decide)
  exact ⟨by decide, grid, hgrid, hlength, hcount _ _ (by decide) (by decide)⟩

end HueSaturation
