import HueSaturation.Proofs.Raster.Chunks
import HueSaturation.Proofs.Raster.Regions
import Mathlib.Data.List.FinRange
import Mathlib.Data.List.OfFn

/-!
# Buffers and their data

The data of a buffer is one list of floats: pixel after pixel, row after row, channel after channel.
What is said of pixels by their coordinates is said here of the places in that list. Every operation
leaves a buffer that is whole, but a crop of rows that are beyond the largest word.

* `coordinates_entries`, `mem_entries`   the pixels in the order they are listed in;
* `PixelBuffer.offset`     where the channels of a pixel start;
* `getElem?_data`          the element at a place, `exists_pixel` by coordinates;
* `offset_inj`             no element belongs to two pixels;
* `ofData_eq_ok_iff`       an image is its size and its data;
* `exists_setPixel`, `exists_setElement`   what writing a pixel or an element changes;
* `PixelBuffer.Faithful`   all of it, as what a buffer is to its readers;
* `PixelBuffer.Reached`    the buffers that the operations make; `whole_of_reached`;
* `whole_crop_iff`         which crops are whole.
-/

namespace HueSaturation
namespace Image

variable {π : Type}

/-! ## the pixels in order -/

/-- The pixels with their coordinates, by their places. -/
def entries (img : Image π) : List (Nat × Nat × π) :=
  List.ofFn fun i : Fin img.area =>
    (i % img.width.toNat, i / img.width.toNat, img.pixels[i])

theorem ofFn_coe {α : Type} (n : Nat) (f : Nat → α) :
    (List.ofFn fun i : Fin n => f i) = (List.range n).map f := by
  rw [List.ofFn_eq_map, ← List.map_coe_finRange_eq_range, List.map_map]
  rfl

/-- The places of a rectangle in turn are its coordinates row by row. -/
theorem ofFn_coordinates (w h : Nat) : (List.ofFn fun i : Fin (w * h) => (i.val % w, i.val / w))
    = (List.range h).flatMap fun y => (List.range w).map fun x => (x, y) := by
  have hplace (i : Fin h) (j : Fin w) : ((w * i.val + j.val) % w, (w * i.val + j.val) / w)
      = (j.val, i.val) := by
    rw [Nat.mul_comm, Size.place_row j.2, Size.place_column j.2]
  rw [List.ofFn_mul', List.flatMap_def, ← ofFn_coe]
  simp only [hplace, ← ofFn_coe]

theorem coordinates_entries (img : Image π) : img.entries.map (fun e => (e.1, e.2.1))
    = (List.range img.height.toNat).flatMap fun y =>
        (List.range img.width.toNat).map fun x => (x, y) := by
  rw [← ofFn_coordinates, entries, List.map_ofFn]
  rfl

theorem nodup_coordinates (img : Image π) :
    (img.entries.map fun e => (e.1, e.2.1)).Nodup := by
  rw [coordinates_entries, List.nodup_flatMap]
  refine ⟨fun y _ => List.nodup_range.map fun a b h => (Prod.mk.inj h).1, ?_⟩
  refine List.nodup_range.imp fun {a b} hne c ha hb => hne ?_
  obtain ⟨_, -, rfl⟩ := List.mem_map.mp ha
  obtain ⟨_, -, h⟩ := List.mem_map.mp hb
  exact (Prod.mk.inj h).2.symm

theorem at?_of_mem_entries (img : Image π) {e : Nat × Nat × π} (h : e ∈ img.entries) :
    img.at? e.1 e.2.1 = some e.2.2 := by
  obtain ⟨i, rfl⟩ := List.mem_ofFn.mp h
  rw [at?_of_lt img (Size.column_lt i.2) (Size.row_lt i.2)]
  simp only [Nat.div_add_mod']
  rfl

theorem mem_entries (img : Image π) {x y : UInt32} {p : π} :
    (x.toNat, y.toNat, p) ∈ img.entries ↔ img.buffer.pixel? x y = some p := by
  rw [pixel?_buffer]
  refine ⟨img.at?_of_mem_entries, fun h => List.mem_ofFn.mpr ?_⟩
  by_cases hxy : x.toNat < img.width.toNat ∧ y.toNat < img.height.toNat
  · rw [at?_of_lt img hxy.1 hxy.2] at h
    obtain rfl := Option.some.inj h
    refine ⟨⟨_, Size.index_lt hxy.1 hxy.2⟩, ?_⟩
    exact Prod.ext (Size.place_column hxy.1) (Prod.ext (Size.place_row hxy.1) rfl)
  · rw [at?_of_not_lt img hxy] at h
    cases h

theorem mapM_map_eq_some {α β : Type} {f : α → β} {g : β → Option α} {l : List α}
    (h : ∀ a ∈ l, g (f a) = some a) : (l.map f).mapM g = some l := by
  induction l with
  | nil => rfl
  | cons a l ih =>
    rw [List.map_cons, List.mapM_cons, h a List.mem_cons_self,
      ih fun c hc => h c (List.mem_cons_of_mem _ hc)]
    rfl

theorem entries_buffer (img : Image π) : img.buffer.entries? = some img.entries := by
  unfold PixelBuffer.entries?
  rw [toSize_buffer, ← coordinates_entries]
  refine mapM_map_eq_some fun e he => ?_
  show (img.buffer.at? e.1 e.2.1 >>= fun p => pure (e.1, e.2.1, p)) = some e
  rw [at?_buffer, img.at?_of_mem_entries he]
  rfl

theorem pixels_entries (img : Image π) : img.entries.map (fun e => e.2.2) = img.pixels.toList := by
  rw [entries, List.map_ofFn]
  refine List.ext_getElem (by simp) fun i hi _ => ?_
  rw [List.getElem_ofFn]
  rfl

theorem at?_set (img : Image π) {x y : Nat} (hx : x < img.width.toNat) (hy : y < img.height.toNat)
    (p : π) (i j : Nat) :
    ({ img with
      pixels := img.pixels.set (y * img.width.toNat + x) p (Size.index_lt hx hy) } :
        Image π).at? i j
      = if i = x ∧ j = y then some p else img.at? i j := by
  have hn : y * img.width.toNat + x < img.area := Size.index_lt hx hy
  by_cases hi : i < img.width.toNat
  · rw [at?, at?, if_pos hi, if_pos hi, Vector.getElem?_set hn]
    split
    · next hplace =>
      obtain ⟨rfl, rfl⟩ := Size.place_inj hx hi hplace
      rw [if_pos ⟨rfl, rfl⟩]
    · next hplace =>
      rw [if_neg fun h => hplace (by rw [h.1, h.2])]
  · rw [at?, at?, if_neg hi, if_neg hi, if_neg]
    rintro ⟨rfl, -⟩
    exact hi hx

end Image

/-! ## places -/

/-- Where the channels of the pixel `(x, y)` start in the data. -/
def PixelBuffer.offset {π : Type} [Channels π] (b : PixelBuffer π) (x y : UInt32) : Nat :=
  (y.toNat * b.width.toNat + x.toNat) * Channels.count π

namespace Image

variable {π : Type} [Channels π]

theorem size_data (img : Image π) : img.data.size = img.area * Channels.count π :=
  (size_flat Channels.toVector img.buffer.pixels).trans
    (congrArg (· * Channels.count π) img.whole_buffer)

theorem getElem?_data (img : Image π) {i c : Nat} (hi : i < img.area) (hc : c < Channels.count π) :
    img.data[i * Channels.count π + c]? = some (Channels.toVector img.pixels[i])[c] :=
  getElem?_flat Channels.toVector img.buffer.pixels (img.whole_buffer.symm ▸ hi) hc

theorem exists_place (img : Image π) {k : Nat} (hk : k < img.data.size) :
    ∃ i c, i < img.area ∧ c < Channels.count π ∧ i * Channels.count π + c = k := by
  rw [size_data] at hk
  exact ⟨k / Channels.count π, k % Channels.count π,
    Nat.div_lt_of_lt_mul (Nat.mul_comm _ _ ▸ hk), Nat.mod_lt _ Channels.count_pos,
    Nat.div_add_mod' _ _⟩

theorem exists_pixel (img : Image π) {x y : UInt32} (hx : x < img.width) (hy : y < img.height) :
    ∃ p, img.buffer.pixel? x y = some p ∧ ∀ c (hc : c < Channels.count π),
      img.data[img.buffer.offset x y + c]? = some (Channels.toVector p)[c] :=
  ⟨_, (img.pixel?_buffer x y).trans (img.at?_of_lt hx hy), fun _ hc =>
    img.getElem?_data (Size.index_lt hx hy) hc⟩

theorem offset_inj (img : Image π) {x y x' y' : UInt32} {c c' : Nat} (hx : x < img.width)
    (hx' : x' < img.width) (hc : c < Channels.count π) (hc' : c' < Channels.count π)
    (h : img.buffer.offset x y + c = img.buffer.offset x' y' + c') :
    x = x' ∧ y = y' ∧ c = c' := by
  obtain ⟨hchannel, hplace⟩ := Size.place_inj hc hc' h
  obtain ⟨hcolumn, hrow⟩ := Size.place_inj hx hx' hplace
  exact ⟨UInt32.toNat_inj.mp hcolumn, UInt32.toNat_inj.mp hrow, hchannel⟩

/-! ## images from their data -/

theorem data_eq_of_places {img : Image π} {data : Array Float32}
    (hs : data.size = img.area * Channels.count π)
    (h : ∀ i c (hi : i < img.area) (hc : c < Channels.count π),
      data[i * Channels.count π + c]? = some (Channels.toVector img.pixels[i])[c]) :
    img.data = data := by
  refine Array.ext_getElem? fun k => ?_
  by_cases hk : k < img.data.size
  · obtain ⟨i, c, hi, hc, rfl⟩ := img.exists_place hk
    rw [img.getElem?_data hi hc, h i c hi hc]
  · rw [Array.getElem?_eq_none (Nat.le_of_not_lt hk), Array.getElem?_eq_none]
    rw [hs, ← size_data]
    exact Nat.le_of_not_lt hk

theorem ofData_data (img : Image π) : ofData img.toSize img.data = .ok img := by
  refine (dif_pos img.size_data).trans (congrArg Except.ok (buffer_inj ?_))
  refine PixelBuffer.ext_pixels rfl ?_
  have hchunks : chunks (Channels.count π) img.data = img.buffer.pixels.map Channels.toVector :=
    chunks_flat Channels.count_pos Channels.toVector img.buffer.pixels
  show (chunks (Channels.count π) img.data).map Channels.ofVector = img.buffer.pixels
  rw [hchunks, Array.map_map]
  exact (Array.map_congr_left fun p _ => Channels.ofVector_toVector p).trans (Array.map_id' _)

theorem exists_ofData {size : Size} {data : Array Float32}
    (h : data.size = size.area * Channels.count π) :
    ∃ img : Image π, ofData size data = .ok img ∧ img.toSize = size ∧ img.data = data := by
  refine ⟨_, dif_pos h, rfl, ?_⟩
  show ((chunks (Channels.count π) data).map Channels.ofVector).flatMap
    (fun p => (Channels.toVector p).toArray) = data
  rw [Array.flatMap_map]
  simp only [Channels.toVector_ofVector]
  exact flat_chunks Channels.count_pos h

/-- An image is its size and its data: from these it is built, and from no others. -/
theorem ofData_eq_ok_iff {size : Size} {data : Array Float32} {img : Image π} :
    ofData size data = .ok img ↔ img.toSize = size ∧ img.data = data := by
  constructor
  · intro h
    have hs : data.size = size.area * Channels.count π := by
      by_contra hs
      unfold ofData at h
      rw [dif_neg hs] at h
      split at h <;> cases h
    obtain ⟨out, hout, hsize, hdata⟩ := exists_ofData (π := π) hs
    cases hout.symm.trans h
    exact ⟨hsize, hdata⟩
  · rintro ⟨rfl, rfl⟩
    exact img.ofData_data

/-! ## writing -/

/-- A pixel that is replaced has its elements replaced, and no others. -/
theorem getElem?_data_set (img : Image π) {n : Nat} (hn : n < img.area) (p : π) {i c : Nat}
    (hi : i < img.area) (hc : c < Channels.count π) :
    ({ img with pixels := img.pixels.set n p } : Image π).data[i * Channels.count π + c]?
      = if i = n then some (Channels.toVector p)[c] else img.data[i * Channels.count π + c]? := by
  rw [getElem?_data { img with pixels := img.pixels.set n p } hi hc, img.getElem?_data hi hc]
  split
  · next h =>
    subst h
    simp only [Vector.getElem_set_self]
  · next h => simp only [Vector.getElem_set_ne hn hi (Ne.symm h)]

theorem exists_setPixel (img : Image π) {x y : UInt32} (hx : x < img.width) (hy : y < img.height)
    (p : π) : ∃ out : Image π, img.buffer.setPixel? x y p = some out.buffer ∧
      out.toSize = img.toSize ∧ out.buffer.pixel? x y = some p ∧
      (∀ i j, (i, j) ≠ (x, y) → out.buffer.pixel? i j = img.buffer.pixel? i j) ∧
      ∀ k, (∀ c, c < Channels.count π → img.buffer.offset x y + c ≠ k) →
        out.data[k]? = img.data[k]? := by
  have hn : y.toNat * img.width.toNat + x.toNat < img.area := Size.index_lt hx hy
  have hn' : y.toNat * img.width.toNat + x.toNat < img.buffer.pixels.size := by
    rw [img.whole_buffer]
    exact hn
  refine ⟨{ img with pixels := img.pixels.set _ p hn }, dif_pos ⟨⟨hx, hy⟩, hn'⟩, rfl, ?_,
    fun i j hne => ?_, fun k hk => ?_⟩
  · rw [pixel?_buffer, at?_set img (x := x.toNat) (y := y.toNat) hx hy, if_pos ⟨rfl, rfl⟩]
  · rw [pixel?_buffer, pixel?_buffer, at?_set img (x := x.toNat) (y := y.toNat) hx hy]
    refine if_neg fun h => hne ?_
    rw [UInt32.toNat_inj.mp h.1, UInt32.toNat_inj.mp h.2]
  · by_cases hin : k < img.data.size
    -- an element of the pixel itself would be among those that `hk` leaves out
    · obtain ⟨i, c, hi, hc, rfl⟩ := img.exists_place hin
      refine (img.getElem?_data_set hn p hi hc).trans (if_neg ?_)
      rintro rfl
      exact hk c hc rfl
    · rw [Array.getElem?_eq_none (Nat.le_of_not_lt hin), Array.getElem?_eq_none]
      rw [size_data] at hin ⊢
      exact Nat.le_of_not_lt hin

theorem place_eq_iff {n i c k : Nat} (hc : c < n) : k = i * n + c ↔ k / n = i ∧ k % n = c := by
  constructor
  · rintro rfl
    exact ⟨Size.place_row hc, Size.place_column hc⟩
  · rintro ⟨rfl, rfl⟩
    exact (Nat.div_add_mod' k n).symm

theorem exists_setElement (img : Image π) {k : Nat} (hk : k < img.data.size) (v : Float32) :
    ∃ out : Image π, img.buffer.setElement? k v = some out.buffer ∧ out.toSize = img.toSize ∧
      out.data = img.data.setIfInBounds k v := by
  have hk' : k < img.area * Channels.count π := img.size_data ▸ hk
  have hn : k / Channels.count π < img.area := Nat.div_lt_of_lt_mul (Nat.mul_comm _ _ ▸ hk')
  have hn' : k / Channels.count π < img.buffer.pixels.size := by
    rw [img.whole_buffer]
    exact hn
  let p := (Channels.toVector img.pixels[k / Channels.count π]).set (k % Channels.count π) v
    (Nat.mod_lt _ Channels.count_pos)
  refine ⟨{ img with pixels := img.pixels.set _ (Channels.ofVector p) hn }, dif_pos hn', rfl,
    data_eq_of_places ?_ fun i c hi hc => ?_⟩
  · rw [Array.size_setIfInBounds, size_data]
  · rw [Array.getElem?_setIfInBounds, img.getElem?_data hi hc]
    simp only [Vector.getElem_set hn hi, place_eq_iff hc, if_pos hk]
    by_cases hpixel : k / Channels.count π = i
    · subst hpixel
      simp only [p, if_pos, Channels.toVector_ofVector, Vector.getElem_set, true_and]
      split <;> rfl
    · simp only [hpixel, if_false, false_and]

theorem flatMap_entries (img : Image π) :
    img.entries.flatMap (fun e => (Channels.toVector e.2.2).toList) = img.data.toList := by
  have hlist := congrArg (List.flatMap fun p => (Channels.toVector p).toList) img.pixels_entries
  rw [List.flatMap_map] at hlist
  rw [hlist, data, PixelBuffer.data, Array.toList_flatMap]
  rfl

end Image

/-! ## what a buffer is to its readers -/

namespace PixelBuffer

variable {π : Type}

theorem pixel?_map (f : π → π) (b : PixelBuffer π) (x y : UInt32) :
    (b.map f).pixel? x y = (b.pixel? x y).map f := by
  unfold pixel? at?
  rw [map, toSize_of, pixels_of]
  split
  · exact Array.getElem?_map
  · rfl

variable [Channels π]

/-- A buffer is a map from its coordinates to pixels, kept as a list of floats. -/
structure Faithful (b : PixelBuffer π) : Prop where
  /-- The data has one element for each channel of each pixel. -/
  length : b.data.size = b.width.toNat * b.height.toNat * Channels.count π
  /-- Every coordinate has a pixel, whose channels are the elements at its place. -/
  pixel : ∀ x y, x < b.width → y < b.height → ∃ p, b.pixel? x y = some p ∧
    ∀ c (hc : c < Channels.count π), b.data[b.offset x y + c]? = some (Channels.toVector p)[c]
  /-- Two coordinates share no element. -/
  apart : ∀ x y x' y' c c', x < b.width → x' < b.width → c < Channels.count π →
    c' < Channels.count π → b.offset x y + c = b.offset x' y' + c' → x = x' ∧ y = y' ∧ c = c'
  /-- A pixel that is set has its new value, and nothing else has another one. -/
  set : ∀ x y p, x < b.width → y < b.height → ∃ out, b.setPixel? x y p = some out ∧
    out.toSize = b.toSize ∧ out.pixel? x y = some p ∧
    (∀ i j, (i, j) ≠ (x, y) → out.pixel? i j = b.pixel? i j) ∧
    ∀ k, (∀ c, c < Channels.count π → b.offset x y + c ≠ k) → out.data[k]? = b.data[k]?
  /-- An element that is written is the only one that changes. -/
  write : ∀ k v, k < b.data.size → ∃ out, b.setElement? k v = some out ∧
    out.toSize = b.toSize ∧ out.data = b.data.setIfInBounds k v
  /-- A map of the pixels has at every coordinate what it makes of the pixel there. -/
  map : ∀ (f : π → π) (x y : UInt32), (b.map f).pixel? x y = (b.pixel? x y).map f
  /-- The pixels are listed row by row, every coordinate once, and together they are the data. -/
  listed : ∃ entries, b.entries? = some entries ∧
    entries.map (fun e => (e.1, e.2.1)) = ((List.range b.height.toNat).flatMap fun y =>
      (List.range b.width.toNat).map fun x => (x, y)) ∧
    (entries.map fun e => (e.1, e.2.1)).Nodup ∧
    (∀ x y : UInt32, ∀ p, (x.toNat, y.toNat, p) ∈ entries ↔ b.pixel? x y = some p) ∧
    entries.flatMap (fun e => (Channels.toVector e.2.2).toList) = b.data.toList
  /-- The buffer is what its size and its data build, and no others do. -/
  rebuilt : ∀ size data, (∃ img, Image.ofData size data = .ok img ∧ img.buffer = b) ↔
    b.toSize = size ∧ b.data = data

theorem faithful_buffer (img : Image π) : img.buffer.Faithful where
  length := img.size_data
  pixel _ _ hx hy := img.exists_pixel hx hy
  apart _ _ _ _ _ _ hx hx' hc hc' h := img.offset_inj hx hx' hc hc' h
  set _ _ p hx hy := by
    obtain ⟨out, hout, hset⟩ := img.exists_setPixel hx hy p
    exact ⟨out.buffer, hout, hset⟩
  write _ v hk := by
    obtain ⟨out, hout, hwritten⟩ := img.exists_setElement hk v
    exact ⟨out.buffer, hout, hwritten⟩
  map f x y := img.buffer.pixel?_map f x y
  listed := ⟨img.entries, img.entries_buffer, img.coordinates_entries, img.nodup_coordinates,
    fun _ _ _ => img.mem_entries, img.flatMap_entries⟩
  rebuilt size data := by
    refine ⟨fun ⟨out, hout, h⟩ => ?_, fun h => ⟨img, Image.ofData_eq_ok_iff.mpr h, rfl⟩⟩
    rw [← Image.buffer_inj h]
    exact Image.ofData_eq_ok_iff.mp hout

theorem faithful_iff_whole {b : PixelBuffer π} : b.Faithful ↔ b.Whole := by
  constructor
  · intro h
    have hsize : b.data.size = b.pixels.size * Channels.count π :=
      size_flat Channels.toVector b.pixels
    exact Nat.eq_of_mul_eq_mul_right Channels.count_pos (hsize.symm.trans h.length)
  · intro h
    obtain ⟨img, rfl⟩ := exists_image h
    exact faithful_buffer img

end PixelBuffer

/-! ## which buffers are whole -/

/-- Every row of the region is a word, or no row has a pixel. -/
def Region.RowsInWords (r : Region) : Prop :=
  r.width = 0 ∨ r.y.toNat + r.height.toNat ≤ 0xffffffff

instance (r : Region) : Decidable r.RowsInWords :=
  inferInstanceAs (Decidable (_ ∨ _))

theorem Region.rows_mul_width_iff (r : Region) :
    r.rows * r.width.toNat = r.area ↔ r.RowsInWords := by
  have hy := r.y.toNat_lt
  have hbottom : r.bottom.toNat = min (r.y.toNat + r.height.toNat) 0xffffffff :=
    toNat_saturatingAdd _ _
  rw [RowsInWords, rows, Size.area, Nat.mul_comm]
  split
  · next hw => simp [hw]
  · next hw =>
    have hpos := toNat_pos_of_ne_zero hw
    rw [Nat.mul_right_inj (Nat.ne_of_gt hpos), hbottom, or_iff_right hw]
    omega

namespace PixelBuffer

variable {π : Type}

theorem size_slice {b : PixelBuffer π} {start count : Nat} {row : Array π}
    (h : b.slice? start count = some row) : row.size = count := by
  unfold slice? at h
  split at h
  · obtain rfl := Option.some.inj h
    rw [Array.size_extract]
    omega
  · cases h

theorem size_copyRows {b : PixelBuffer π} {x count rows y : Nat} {copied out : Array π}
    (h : b.copyRows x count rows y copied = some out) :
    out.size = copied.size + rows * count := by
  induction rows generalizing y copied with
  | zero =>
    obtain rfl := Option.some.inj h
    rw [Nat.zero_mul, Nat.add_zero]
  | succ rows ih =>
    obtain ⟨row, hrow, hrest⟩ := Option.bind_eq_some_iff.mp h
    rw [ih hrest, Array.size_append, size_slice hrow, Nat.add_mul, Nat.one_mul]
    omega

theorem of_crop {b out : PixelBuffer π} {r : Region} (h : b.crop r = .ok out) :
    out.toSize = r.toSize ∧ out.pixels.size = r.rows * r.width.toNat := by
  unfold crop at h
  split at h
  · split at h
    · next pixels hpixels =>
      obtain rfl := Except.ok.inj h
      refine ⟨rfl, (size_copyRows hpixels).trans ?_⟩
      exact Nat.zero_add _
    · cases h
  · cases h

/-- **Which crops are whole**: those whose rows are words. -/
theorem whole_crop_iff {b out : PixelBuffer π} {r : Region} (h : b.crop r = .ok out) :
    out.Whole ↔ r.RowsInWords := by
  obtain ⟨hsize, hcount⟩ := of_crop h
  have harea : out.area = r.area := congrArg Size.area hsize
  rw [Whole, hcount, harea]
  exact r.rows_mul_width_iff

theorem whole_setPixel {b out : PixelBuffer π} {x y : UInt32} {p : π} (hb : b.Whole)
    (h : b.setPixel? x y p = some out) : out.Whole := by
  simp only [setPixel?] at h
  split at h
  · obtain rfl := Option.some.inj h
    rw [Whole, pixels_of, Array.size_set]
    exact hb
  · cases h

theorem whole_paste {b tile out : PixelBuffer π} {x y : UInt32} (hb : b.Whole)
    (h : b.paste tile x y = .ok out) : out.Whole := by
  unfold paste at h
  rcases tile.pasteHere_cases x y b with ⟨next, hnext, hsize, hcount⟩ | hnext | ⟨next, hnext, -⟩
  all_goals
    rw [hnext] at h
    cases h
  have harea : out.area = b.area := congrArg Size.area hsize
  rw [Whole, hcount, harea]
  exact hb

section
variable [Channels π]

theorem fill_of_lt {size : Size} {p : π} (h : size.area * Channels.count π < 0x10000000000000000) :
    fill size p = .ok { size with content := .mk fun _ => .replicate size.area p } :=
  if_pos h

theorem whole_fill {size : Size} {p : π} {b : PixelBuffer π} (h : fill size p = .ok b) :
    b.Whole := by
  unfold fill at h
  split at h
  · obtain rfl := Except.ok.inj h
    exact Array.size_replicate
  · cases h

theorem whole_setElement {b out : PixelBuffer π} {k : Nat} {v : Float32} (hb : b.Whole)
    (h : b.setElement? k v = some out) : out.Whole := by
  simp only [setElement?] at h
  split at h
  · obtain rfl := Option.some.inj h
    rw [Whole, pixels_of, Array.size_set]
    exact hb
  · cases h

/-- The buffers that are made from nothing by any sequence of operations, the regions that are
cropped having all their rows in words. -/
inductive Reached : PixelBuffer π → Prop where
  | fill {size p b} (h : fill size p = .ok b) : Reached b
  | data {size data img} (h : Image.ofData size data = .ok img) : Reached img.buffer
  | setPixel {b x y p out} (hb : Reached b) (h : b.setPixel? x y p = some out) : Reached out
  | setElement {b k v out} (hb : Reached b) (h : b.setElement? k v = some out) : Reached out
  | map {b} (f : π → π) (hb : Reached b) : Reached (b.map f)
  | crop {b r out} (hb : Reached b) (hr : r.RowsInWords) (h : b.crop r = .ok out) : Reached out
  | paste {b tile x y out} (hb : Reached b) (htile : Reached tile)
      (h : b.paste tile x y = .ok out) : Reached out

theorem whole_of_reached {b : PixelBuffer π} (h : Reached b) : b.Whole := by
  induction h with
  | fill h => exact whole_fill h
  | data _ => exact Image.whole_buffer _
  | setPixel _ h ih => exact whole_setPixel ih h
  | setElement _ h ih => exact whole_setElement ih h
  | map f _ ih => exact Array.size_map.trans ih
  | crop _ hr h _ => exact (whole_crop_iff h).mpr hr
  | paste _ _ h ih _ => exact whole_paste ih h

end
end PixelBuffer

variable {π : Type} [Channels π]

/-- **A buffer is a faithful map from coordinates to pixels**, whatever operations it was made by,
if no region was cropped whose rows are beyond the words; and of every crop of it that succeeds,
this says which is one again. -/
theorem reached_buffer_is_faithful (b : PixelBuffer π) (h : b.Reached) :
    b.Faithful ∧ ∀ r out, b.crop r = .ok out → (out.Faithful ↔ r.RowsInWords) :=
  ⟨PixelBuffer.faithful_iff_whole.mpr (PixelBuffer.whole_of_reached h), fun _ _ hout =>
    PixelBuffer.faithful_iff_whole.trans (PixelBuffer.whole_crop_iff hout)⟩

/-- Two pixels cropped out of six have two elements. -/
theorem crop_of_six_is_faithful : ∃ b : PixelBuffer Float32, b.Reached ∧ b.toSize = ⟨2, 1⟩ ∧
    b.data.size = 2 := by
  let img : Mask := ⟨⟨3, 2⟩, #v[0.0, 0.125, 0.25, 0.5, 0.75, 1.0]⟩
  have hcrop := img.crop_eq_cut (r := .of 1 0 2 1) (by decide)
  have hreached := (PixelBuffer.Reached.data img.ofData_data).crop (by decide) hcrop
  exact ⟨_, hreached, rfl, (reached_buffer_is_faithful _ hreached).1.length⟩

/-- One row beyond an image as high as words go is cropped to an image of one pixel that has none.
-/
theorem crop_beyond_words_has_no_pixel : ∃ b out : PixelBuffer Float32,
    PixelBuffer.blank ⟨1, 0xffffffff⟩ = .ok b ∧ b.Reached ∧
      b.crop (.of 0 0xffffffff 1 1) = .ok out ∧ out.toSize = ⟨1, 1⟩ ∧ out.data.size = 0 ∧
      out.pixel? 0 0 = none ∧ ¬ out.Faithful := by
  have hblank : PixelBuffer.blank (π := Float32) ⟨1, 0xffffffff⟩ = .ok _ :=
    PixelBuffer.fill_of_lt (by decide)
  refine ⟨_, _, hblank, .fill hblank, rfl, rfl, rfl, rfl, fun h => ?_⟩
  exact absurd h.length (by decide)

end HueSaturation
