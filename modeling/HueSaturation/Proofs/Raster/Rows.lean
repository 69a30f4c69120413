import HueSaturation.Proofs.Raster.Pixels

/-!
# Regions are copied and written row by row

Each row of a region is one slice of the buffer.  Inside an image no slice leaves the buffer, two
slices share no place, and together they are the region:

* `Region.fitsWithin_iff`   what the test by the edges decides, whatever the words are;
* `PixelBuffer.exists_image`   a buffer that is whole is that of an image;
* `Image.exists_copyRows`   what copying rows collects; `crop_eq_cut`;
* `Image.exists_writeRow`   what writing one row changes, `exists_writeRows` what all rows change;
* `Image.pasteHere_eq_inlay`, `paste_eq_inlay`   hence what pasting a tile leaves.
-/

namespace HueSaturation

/-! ## the edges of a region -/

theorem toNat_pos_of_ne_zero {a : UInt32} (h : a ≠ 0) : 0 < a.toNat :=
  Nat.pos_of_ne_zero fun h0 => h (UInt32.toNat_inj.mp h0)

theorem toNat_saturatingAdd (a b : UInt32) :
    (saturatingAdd a b).toNat = min (a.toNat + b.toNat) 0xffffffff := by
  have h1 : (a + b).toNat = (a.toNat + b.toNat) % 2 ^ 32 := UInt32.toNat_add a b
  have ha := a.toNat_lt
  have hb := b.toNat_lt
  unfold saturatingAdd
  split
  · next hlt =>
    have h2 : (a + b).toNat < a.toNat := UInt32.lt_iff_toNat_lt.mp hlt
    show 0xffffffff = _
    omega
  · next hle =>
    have h2 : ¬ (a + b).toNat < a.toNat := fun h => hle (UInt32.lt_iff_toNat_lt.mpr h)
    omega

theorem saturatingAdd_le_iff {a b c : UInt32} :
    saturatingAdd a b ≤ c ↔ a.toNat + b.toNat ≤ c.toNat ∨ c = 0xffffffff := by
  have hc := c.toNat_lt
  have htop : c = 0xffffffff ↔ c.toNat = 0xffffffff := UInt32.toNat_inj.symm
  rw [UInt32.le_iff_toNat_le, toNat_saturatingAdd, htop]
  omega

namespace Region

/-- The test by the edges is exact on each side that is not as long as a word can say. -/
theorem fitsWithin_iff {r : Region} {s : Size} : r.fitsWithin s = true ↔
    (r.x.toNat + r.width.toNat ≤ s.width.toNat ∨ s.width = 0xffffffff) ∧
      (r.y.toNat + r.height.toNat ≤ s.height.toNat ∨ s.height = 0xffffffff) := by
  rw [fitsWithin, Bool.and_eq_true, decide_eq_true_eq, decide_eq_true_eq]
  exact and_congr saturatingAdd_le_iff saturatingAdd_le_iff

theorem fitsWithin_of_inside {r : Region} {s : Size} (h : r.Inside s) : r.fitsWithin s = true :=
  fitsWithin_iff.mpr ⟨.inl h.1, .inl h.2⟩

theorem bottom_of_inside {r : Region} {s : Size} (h : r.Inside s) :
    r.bottom.toNat = r.y.toNat + r.height.toNat := by
  have h1 := h.2
  have h2 := s.height.toNat_lt
  rw [bottom, toNat_saturatingAdd]
  omega

/-- Inside an image all rows of a region are looked at, or the last one if it has no columns. -/
theorem rows_of_inside {r : Region} {s : Size} (h : r.Inside s) :
    r.rows = if r.width = 0 then min r.height.toNat 1 else r.height.toNat := by
  rw [rows, bottom_of_inside h, Nat.add_sub_cancel_left]

theorem rows_le_height {r : Region} {s : Size} (h : r.Inside s) : r.rows ≤ r.height.toNat := by
  rw [rows_of_inside h]
  split <;> omega

/-- The rows that are looked at begin where the region does, if it has pixels. -/
theorem first_row_of_inside {r : Region} {s : Size} (h : r.Inside s) (hw : r.width ≠ 0) :
    r.bottom.toNat - r.rows = r.y.toNat := by
  rw [bottom_of_inside h, rows_of_inside h, if_neg hw, Nat.add_sub_cancel]

theorem last_row_le {r : Region} {s : Size} (h : r.Inside s) :
    r.bottom.toNat - r.rows + r.rows ≤ s.height.toNat := by
  have h1 := h.2
  have h2 := rows_le_height h
  rw [bottom_of_inside h]
  omega

theorem rows_mul_width {r : Region} {s : Size} (h : r.Inside s) :
    r.rows * r.width.toNat = r.area := by
  rw [rows_of_inside h, Size.area, Nat.mul_comm]
  split
  · next hw => rw [hw, UInt32.toNat_zero, Nat.zero_mul, Nat.zero_mul]
  · rfl

end Region

/-! ## whole buffers -/

namespace PixelBuffer

variable {π : Type}

@[simp] theorem pixels_of (size : Size) (pixels : Array π) : (of size pixels).pixels = pixels := rfl

@[simp] theorem toSize_of (size : Size) (pixels : Array π) : (of size pixels).toSize = size := rfl

theorem ext_pixels {a b : PixelBuffer π} (hs : a.toSize = b.toSize) (h : a.pixels = b.pixels) :
    a = b := by
  obtain ⟨s, u⟩ := a
  obtain ⟨t, v⟩ := b
  obtain rfl : s = t := hs
  exact congrArg (PixelBuffer.mk s) (Thunk.ext h)

end PixelBuffer

namespace Image

variable {π : Type}

@[simp] theorem toSize_buffer (img : Image π) : img.buffer.toSize = img.toSize := rfl

@[simp] theorem pixels_buffer (img : Image π) : img.buffer.pixels = img.pixels.toArray := rfl

theorem whole_buffer (img : Image π) : img.buffer.Whole :=
  img.pixels.size_toArray

@[simp] theorem image_buffer (img : Image π) : img.buffer.image = .ok img :=
  dif_pos img.whole_buffer

theorem buffer_inj {a b : Image π} (h : a.buffer = b.buffer) : a = b := by
  have himage := congrArg PixelBuffer.image h
  rw [image_buffer, image_buffer] at himage
  exact Except.ok.inj himage

theorem at?_buffer (img : Image π) (x y : Nat) : img.buffer.at? x y = img.at? x y := by
  rw [PixelBuffer.at?]
  split
  · next h =>
    rw [toSize_buffer] at h
    rw [at?, if_pos h.1, ← Vector.getElem?_toArray, pixels_buffer, toSize_buffer]
  · next h => exact (img.at?_of_not_lt h).symm

theorem pixel?_buffer (img : Image π) (x y : UInt32) :
    img.buffer.pixel? x y = img.at? x.toNat y.toNat :=
  img.at?_buffer _ _

end Image

theorem PixelBuffer.exists_image {π : Type} {b : PixelBuffer π} (h : b.Whole) :
    ∃ img : Image π, img.buffer = b :=
  ⟨{ b.toSize with pixels := ⟨b.pixels, h⟩ }, ext_pixels rfl rfl⟩

namespace Image

variable {π : Type}

/-! ## copying -/

theorem succ_mul_le_area {s : Size} {y : Nat} (hy : y < s.height.toNat) :
    (y + 1) * s.width.toNat ≤ s.area :=
  calc (y + 1) * s.width.toNat ≤ s.height.toNat * s.width.toNat := Nat.mul_le_mul_right _ hy
    _ = s.area := Nat.mul_comm _ _

/-- A row of a region that ends within the width of an image ends within its buffer. -/
theorem row_le_area {s : Size} {x count y : Nat} (hx : x + count ≤ s.width.toNat)
    (hy : y < s.height.toNat) : y * s.width.toNat + x + count ≤ s.area := by
  have h := succ_mul_le_area hy
  rw [Nat.add_mul, Nat.one_mul] at h
  omega

theorem exists_slice (img : Image π) {x count y : Nat} (hx : x + count ≤ img.width.toNat)
    (hy : y < img.height.toNat) :
    ∃ row, img.buffer.slice? (y * img.width.toNat + x) count = some row ∧ row.size = count ∧
      ∀ i, i < count → row[i]? = img.at? (x + i) y := by
  have hsize : img.buffer.pixels.size = img.area := img.whole_buffer
  have h : y * img.width.toNat + x + count ≤ img.buffer.pixels.size := hsize ▸ row_le_area hx hy
  refine ⟨_, if_pos h, ?_, fun i hi => ?_⟩
  · rw [Array.size_extract]
    omega
  · rw [Array.getElem?_extract, if_pos (by omega), at?, if_pos (by omega),
      ← Vector.getElem?_toArray, Nat.add_assoc]
    rfl

/-- Rows copied from within an image stand behind what was copied before, in their order. -/
theorem exists_copyRows (img : Image π) {x count : Nat} (hx : x + count ≤ img.width.toNat)
    (rows y : Nat) (hy : y + rows ≤ img.height.toNat) (copied : Array π) :
    ∃ out, img.buffer.copyRows x count rows y copied = some out ∧
      out.size = copied.size + rows * count ∧
      (∀ k, k < copied.size → out[k]? = copied[k]?) ∧
      ∀ i j, i < count → j < rows →
        out[copied.size + (j * count + i)]? = img.at? (x + i) (y + j) := by
  -- what is copied already is the start of what is copied in the end
  induction rows generalizing y copied with
  | zero => exact ⟨copied, rfl, by simp, fun k _ => rfl, fun i j _ hj => by omega⟩
  | succ rows ih =>
    obtain ⟨row, hrow, hsize, hat⟩ := img.exists_slice (y := y) hx (by omega)
    obtain ⟨out, hout, hos, hold, hnew⟩ := ih (y + 1) (by omega) (copied ++ row)
    rw [Array.size_append, hsize] at hos hold hnew
    refine ⟨out, ?_, ?_, fun k hk => ?_, fun i j hi hj => ?_⟩
    · rw [PixelBuffer.copyRows, toSize_buffer, hrow]
      exact hout
    · rw [hos, Nat.add_mul, Nat.one_mul]
      omega
    · rw [hold k (by omega), Array.getElem?_append_left hk]
    · cases j with
      | zero =>
        rw [Nat.zero_mul, Nat.zero_add, hold _ (by omega),
          Array.getElem?_append_right (Nat.le_add_right _ _), Nat.add_sub_cancel_left, hat i hi,
          Nat.add_zero]
      | succ j =>
        have h1 := hnew i j hi (by omega)
        rw [show y + (j + 1) = y + 1 + j by omega, ← h1, Nat.add_mul, Nat.one_mul]
        congr 1
        omega

/-- **Copying a region inside an image** gives the image of its pixels. -/
theorem crop_eq_cut (img : Image π) {r : Region} (h : r.Inside img.toSize) :
    img.buffer.crop r = .ok (img.cut r h).buffer := by
  obtain ⟨out, hout, hsize, -, hat⟩ :=
    img.exists_copyRows h.1 r.rows (r.bottom.toNat - r.rows) (Region.last_row_le h) #[]
  have harea : out.size = r.area := by
    rw [hsize, Region.rows_mul_width h]
    exact Nat.zero_add _
  have hcut : ({ r.toSize with pixels := ⟨out, harea⟩ } : Image π) = img.cut r h := by
    refine ext_at? rfl fun i j hi hj => ?_
    have hi' : i < r.width.toNat := hi
    have hw : r.width ≠ 0 := fun hw => by simp [hw] at hi'
    have hj' : j < r.rows := by
      rw [Region.rows_of_inside h, if_neg hw]
      exact hj
    have hrow := hat i j hi' hj'
    rw [Region.first_row_of_inside h hw] at hrow
    rw [at?_cut img r h hi hj, ← hrow, at?, if_pos hi, ← Vector.getElem?_toArray]
    exact congrArg (out[·]?) (Nat.zero_add _).symm
  rw [PixelBuffer.crop, toSize_buffer, if_pos (Region.fitsWithin_of_inside h), hout, ← hcut]
  rfl

/-! ## writing -/

theorem bind_of_ok {ε σ α β : Type} {first : EStateM ε σ α} {rest : α → EStateM ε σ β} {s t : σ}
    {a : α} (h : first s = .ok a t) : (first >>= rest) s = rest a t := by
  show EStateM.bind first rest s = rest a t
  rw [EStateM.bind, h]

theorem bind_of_error {ε σ α β : Type} {first : EStateM ε σ α} {rest : α → EStateM ε σ β} {s t : σ}
    {e : ε} (h : first s = .error e t) : (first >>= rest) s = .error e t := by
  show EStateM.bind first rest s = .error e t
  rw [EStateM.bind, h]

theorem size_row (img : Image π) {y : Nat} (hy : y < img.height.toNat) :
    (img.buffer.row img.width.toNat y).size = img.width.toNat := by
  rw [PixelBuffer.row, Array.size_extract, img.whole_buffer, toSize_buffer,
    Nat.min_eq_left (succ_mul_le_area hy), Nat.add_mul, Nat.one_mul, Nat.add_sub_cancel_left]

theorem getElem?_row (img : Image π) {i y : Nat} (hi : i < img.width.toNat)
    (hy : y < img.height.toNat) : (img.buffer.row img.width.toNat y)[i]? = img.at? i y := by
  rw [PixelBuffer.row, Array.getElem?_extract, img.whole_buffer, toSize_buffer, at?, if_pos hi,
    pixels_buffer, ← Vector.getElem?_toArray, Nat.min_eq_left (succ_mul_le_area hy), if_pos]
  rwa [Nat.add_mul, Nat.one_mul, Nat.add_sub_cancel_left]

theorem getElem?_overwrite_of_lt {n : Nat} (pixels : Vector π n) {start : Nat} {row : Array π}
    (h : start + row.size ≤ n) {i : Nat} (hi : i < row.size) :
    (PixelBuffer.overwrite pixels start row h).toArray[start + i]? = row[i]? := by
  have hplace : start + i < n := by omega
  rw [Vector.getElem?_toArray, Vector.getElem?_eq_getElem hplace, Array.getElem?_eq_getElem hi]
  exact congrArg some (fold_set_place (fun i _ => start + i) (fun i _ => row[i])
    (fun i hi => by omega) pixels (fun i _ j _ hij => Nat.add_left_cancel hij) hi)

theorem getElem?_overwrite_of_ne {n : Nat} (pixels : Vector π n) {start : Nat} {row : Array π}
    (h : start + row.size ≤ n) {k : Nat} (hk : k < n) (hne : ∀ i, i < row.size → start + i ≠ k) :
    (PixelBuffer.overwrite pixels start row h).toArray[k]? = pixels.toArray[k]? := by
  rw [Vector.getElem?_toArray, Vector.getElem?_toArray, Vector.getElem?_eq_getElem hk,
    Vector.getElem?_eq_getElem hk]
  exact congrArg some (fold_set_of_forall_ne (fun i _ => start + i) (fun i _ => row[i])
    (fun i hi => by omega) pixels hk hne)

/-- One row written to an image: its pixels are there, and every other pixel is the old one. -/
theorem exists_writeRow (r : Region) (img : Image π) {y : Nat} {row : Array π}
    (hs : row.size = r.width.toNat) (hx : r.x.toNat + r.width.toNat ≤ img.width.toNat)
    (hy : y < img.height.toNat) :
    ∃ out : Image π, PixelBuffer.writeRow img.width.toNat r y row img.pixels.toArray
        = .ok () out.pixels.toArray ∧ out.toSize = img.toSize ∧
      ∀ i j, out.at? i j = if j = y ∧ r.x.toNat ≤ i ∧ i < r.x.toNat + r.width.toNat
        then row[i - r.x.toNat]? else img.at? i j := by
  have harea : img.pixels.toArray.size = img.area := img.pixels.size_toArray
  have hend : y * img.width.toNat + r.x.toNat + row.size ≤ img.pixels.toArray.size := by
    rw [harea, hs]
    exact row_le_area hx hy
  let pixels := PixelBuffer.overwrite ⟨img.pixels.toArray, rfl⟩ _ row hend
  have hsize : pixels.toArray.size = img.area := pixels.size_toArray.trans harea
  refine ⟨{ img.toSize with pixels := ⟨pixels.toArray, hsize⟩ }, dif_pos ⟨hs, hend⟩, rfl,
    fun i j => ?_⟩
  by_cases hij : i < img.width.toNat ∧ j < img.height.toNat
  · rw [at?, if_pos hij.1, ← Vector.getElem?_toArray]
    show pixels.toArray[j * img.width.toNat + i]? = _
    split
    · next h =>
      obtain ⟨rfl, h1, h2⟩ := h
      rw [← getElem?_overwrite_of_lt _ hend (by omega), Nat.add_assoc, Nat.add_sub_of_le h1]
    · next h =>
      have hk : j * img.width.toNat + i < img.pixels.toArray.size := by
        rw [harea]
        exact Size.index_lt hij.1 hij.2
      rw [at?, if_pos hij.1, ← Vector.getElem?_toArray]
      refine getElem?_overwrite_of_ne _ hend hk fun k hk hplace => h ?_
      rw [Nat.add_assoc] at hplace
      obtain ⟨rfl, rfl⟩ := Size.place_inj (by omega) hij.1 hplace
      exact ⟨rfl, by omega, by omega⟩
  · rw [if_neg fun h => hij (by omega), at?_of_not_lt img hij]
    exact at?_of_not_lt _ hij

theorem writeRows_succ_of_ok {tile : PixelBuffer π} {width : Nat} {pixels next : Array π}
    {r : Region} {rows y : Nat}
    (h : PixelBuffer.writeRow width r (r.y.toNat + y) (tile.row (max r.width.toNat 1) y) pixels
      = .ok () next) :
    tile.writeRows width r (rows + 1) y pixels = tile.writeRows width r rows (y + 1) next := by
  rw [PixelBuffer.writeRows, bind_of_ok h]

/-- Rows of a tile written to an image: the pixels of these rows are those of the tile, and every
other pixel is the old one. -/
theorem exists_writeRows (tile : Image π) {r : Region} (hs : tile.toSize = r.toSize)
    (hw : r.width ≠ 0) (rows y : Nat) (hy : y + rows ≤ r.height.toNat) (img : Image π)
    (h : r.Inside img.toSize) :
    ∃ out : Image π, tile.buffer.writeRows img.width.toNat r rows y img.pixels.toArray
        = .ok () out.pixels.toArray ∧ out.toSize = img.toSize ∧
      ∀ i j, out.at? i j = if (r.y.toNat + y ≤ j ∧ j < r.y.toNat + (y + rows)) ∧
          r.x.toNat ≤ i ∧ i < r.x.toNat + r.width.toNat
        then tile.at? (i - r.x.toNat) (j - r.y.toNat) else img.at? i j := by
  induction rows generalizing y img with
  | zero => exact ⟨img, rfl, rfl, fun i j => by rw [if_neg (by omega)]⟩
  | succ rows ih =>
    have htw : tile.width.toNat = r.width.toNat := by rw [hs]
    have hth : tile.height.toNat = r.height.toNat := by rw [hs]
    have hpos : 0 < r.width.toNat := toNat_pos_of_ne_zero hw
    have hb := h.2
    have hmax : max r.width.toNat 1 = tile.width.toNat := by omega
    have hrow : (tile.buffer.row (max r.width.toNat 1) y).size = r.width.toNat := by
      rw [hmax, tile.size_row (by omega), htw]
    obtain ⟨next, hnext, hsize, hat⟩ :=
      exists_writeRow r img (y := r.y.toNat + y) hrow h.1 (by omega)
    obtain ⟨out, hout, hos, hrest⟩ := ih (y + 1) (by omega) next (hsize ▸ h)
    have hwidth : next.width = img.width := congrArg Size.width hsize
    rw [hwidth] at hout
    refine ⟨out, ?_, hos.trans hsize, fun i j => ?_⟩
    · rw [writeRows_succ_of_ok hnext]
      exact hout
    · rw [hrest i j]
      -- the rows below leave the row written first as it is
      by_cases hi : r.x.toNat ≤ i ∧ i < r.x.toNat + r.width.toNat
      · by_cases hj : j = r.y.toNat + y
        · subst hj
          rw [if_neg (by omega), if_pos (by omega), hat, if_pos ⟨rfl, hi⟩, hmax,
            tile.getElem?_row (by omega) (by omega), Nat.add_sub_cancel_left]
        · have hiff : (r.y.toNat + (y + 1) ≤ j ∧ j < r.y.toNat + (y + 1 + rows)) ↔
              r.y.toNat + y ≤ j ∧ j < r.y.toNat + (y + (rows + 1)) := by omega
          simp only [hiff, hat, hj, false_and, if_false]
      · rw [if_neg (fun hc => hi hc.2), if_neg (fun hc => hi hc.2), hat,
          if_neg (fun hc => hi hc.2)]

theorem rows_of_tile (tile : Image π) : tile.buffer.pixels.size / max tile.width.toNat 1
    = if tile.width = 0 then 0 else tile.height.toNat := by
  rw [tile.whole_buffer, toSize_buffer, Size.area]
  split
  · next hw => rw [hw, UInt32.toNat_zero, Nat.zero_mul, Nat.zero_div]
  · next hw =>
    have hpos : 0 < tile.width.toNat := toNat_pos_of_ne_zero hw
    rw [Nat.max_eq_left hpos, Nat.mul_div_cancel_left _ hpos]

/-- The rows of a tile written to an image inside it leave the image with the pixels of the tile. -/
theorem writeRows_eq_inlay (img tile : Image π) {x y : UInt32}
    (h : (tile.footprint x y).Inside img.toSize) :
    tile.buffer.writeRows img.width.toNat (tile.footprint x y)
        (tile.buffer.pixels.size / max tile.width.toNat 1) 0 img.pixels.toArray
      = .ok () (img.inlay tile x y h).pixels.toArray := by
  rw [tile.rows_of_tile]
  split
  · next hw =>
    -- a tile without columns writes no row, and its footprint has no pixel
    have hinlay : img = img.inlay tile x y h := by
      refine ext_at? rfl fun i j _ _ => (at?_inlay_of_not_contains img tile h fun hc => ?_).symm
      obtain ⟨⟨h1, h2⟩, -⟩ := hc
      have hw' : (tile.footprint x y).width = 0 := hw
      rw [hw', UInt32.toNat_zero] at h2
      omega
    rw [← hinlay]
    rfl
  · next hw =>
    obtain ⟨out, hout, hsize, hat⟩ := tile.exists_writeRows (r := tile.footprint x y) rfl hw
      tile.height.toNat 0 (Nat.le_of_eq (Nat.zero_add _)) img h
    have hinlay : out = img.inlay tile x y h := by
      refine ext_at? hsize fun i j _ _ => (hat i j).trans ?_
      rw [Nat.add_zero, Nat.zero_add]
      split
      · next hc => exact (at?_inlay_of_contains img tile h ⟨hc.2, hc.1⟩).symm
      · next hc => exact (at?_inlay_of_not_contains img tile h fun hc' => hc ⟨hc'.2, hc'.1⟩).symm
    rw [hout, hinlay]

end Image

theorem PixelBuffer.pasteHere_of_fits {π : Type} {b tile : PixelBuffer π} {x y : UInt32}
    (h : (tile.footprint x y).fitsWithin b.toSize = true) : tile.pasteHere x y b
      = match tile.writeRows b.width.toNat (tile.footprint x y)
          (tile.pixels.size / max tile.width.toNat 1) 0 b.pixels with
        | .ok () pixels => .ok () (of b.toSize pixels)
        | .error e pixels => .error e (of b.toSize pixels) :=
  if_pos h

namespace Image

variable {π : Type}

/-- **Pasting a tile inside an image** leaves the image with the pixels of the tile. -/
theorem pasteHere_eq_inlay (img tile : Image π) {x y : UInt32}
    (h : (tile.footprint x y).Inside img.toSize) :
    tile.buffer.pasteHere x y img.buffer = .ok () (img.inlay tile x y h).buffer := by
  have hrows := img.writeRows_eq_inlay tile h
  rw [PixelBuffer.pasteHere_of_fits (Region.fitsWithin_of_inside h)]
  simp only [toSize_buffer, pixels_buffer] at hrows ⊢
  rw [hrows]
  rfl

theorem paste_eq_inlay (img tile : Image π) {x y : UInt32}
    (h : (tile.footprint x y).Inside img.toSize) :
    img.buffer.paste tile.buffer x y = .ok (img.inlay tile x y h).buffer := by
  rw [PixelBuffer.paste, pasteHere_eq_inlay img tile h]

end Image
end HueSaturation
