import HueSaturation.Proofs.Raster.Rows

/-!
# Which regions are accepted, and what cropping and pasting do to each other

* `Region.EndsInWords`     no edge beyond the largest word meets an image as long as that;
* `regions_are_judged_exactly`   then the regions inside the image are accepted, and no other one;
* `PixelBuffer.pasteHere_cases`  what pasting leaves in the buffer, succeed or fail;
* `Image.exists_crop`, `exists_paste`   the results by their pixels;
* `Image.paste_crop`, `crop_paste`, `paste_paste`   cropping and pasting at one place;
* `crop_and_paste_invert`  all of it together.
-/

namespace HueSaturation

/-! ## the test of a region -/

namespace Region

/-- On a side of the image that is as long as words go, the region ends within the words. -/
def EndsInWords (r : Region) (s : Size) : Prop :=
  (s.width = 0xffffffff → r.x.toNat + r.width.toNat ≤ 0xffffffff) ∧
    (s.height = 0xffffffff → r.y.toNat + r.height.toNat ≤ 0xffffffff)

instance (r : Region) (s : Size) : Decidable (r.EndsInWords s) :=
  inferInstanceAs (Decidable (_ ∧ _))

theorem fitsWithin_iff_inside {r : Region} {s : Size} (h : r.EndsInWords s) :
    r.fitsWithin s = true ↔ r.Inside s := by
  refine ⟨fun hfits => ?_, fitsWithin_of_inside⟩
  obtain ⟨hx, hy⟩ := fitsWithin_iff.mp hfits
  refine ⟨hx.elim id fun hw => ?_, hy.elim id fun hh => ?_⟩
  · rw [hw]
    exact h.1 hw
  · rw [hh]
    exact h.2 hh

end Region

/-- A coordinate within a region inside an image is a word. -/
theorem toNat_add_of_le {a b i n : UInt32} (h : a.toNat + b.toNat ≤ n.toNat) (hi : i < b) :
    (a + i).toNat = a.toNat + i.toNat := by
  have h1 : (a + i).toNat = (a.toNat + i.toNat) % 2 ^ 32 := UInt32.toNat_add a i
  have h2 := n.toNat_lt
  have h3 : i.toNat < b.toNat := hi
  omega

theorem Size.footprint_eq {s : Size} {r : Region} (h : s = r.toSize) : s.footprint r.x r.y = r := by
  rw [h]
  rfl

/-! ## what pasting leaves -/

namespace PixelBuffer

variable {π : Type} {b tile : PixelBuffer π} {x y : UInt32}

theorem crop_of_not_fits {r : Region} (h : ¬ r.fitsWithin b.toSize = true) :
    b.crop r = .error (.refused (.invalidRegion r b.toSize)) :=
  if_neg h

/-- A region whose first row leaves the buffer cannot be copied, whatever its edges pass for. -/
theorem crop_of_slice_eq_none {r : Region} (hfits : r.fitsWithin b.toSize = true)
    (hrows : 0 < r.rows)
    (h : b.slice? ((r.bottom.toNat - r.rows) * b.width.toNat + r.x.toNat) r.width.toNat = none) :
    b.crop r = .error .panic := by
  obtain ⟨rows, hrows⟩ := Nat.exists_eq_succ_of_ne_zero (Nat.ne_of_gt hrows)
  rw [crop, if_pos hfits]
  rw [hrows] at h ⊢
  rw [copyRows, h]
  rfl

theorem pasteHere_of_not_fits (h : ¬ (tile.footprint x y).fitsWithin b.toSize = true) :
    tile.pasteHere x y b
      = .error (.refused (.invalidRegion (tile.footprint x y) b.toSize)) b :=
  if_neg h

theorem paste_of_not_fits {r : Region} (hs : tile.toSize = r.toSize)
    (h : ¬ r.fitsWithin b.toSize = true) :
    b.paste tile r.x r.y = .error (.refused (.invalidRegion r b.toSize)) := by
  have hfoot := Size.footprint_eq hs
  rw [paste, pasteHere_of_not_fits (by rw [hfoot]; exact h), hfoot]

theorem writeRow_cases (width : Nat) (r : Region) (y : Nat) (row pixels : Array π) :
    (∃ out, writeRow width r y row pixels = .ok () out ∧ out.size = pixels.size) ∨
      writeRow width r y row pixels = .error .panic pixels := by
  by_cases h : row.size = r.width.toNat ∧ y * width + r.x.toNat + row.size ≤ pixels.size
  · exact .inl ⟨_, dif_pos h, Vector.size_toArray _⟩
  · exact .inr (dif_neg h)

theorem writeRows_cases (tile : PixelBuffer π) (width : Nat) (r : Region) (rows y : Nat)
    (pixels : Array π) :
    (∃ out, tile.writeRows width r rows y pixels = .ok () out ∧ out.size = pixels.size) ∨
      ∃ out, tile.writeRows width r rows y pixels = .error .panic out := by
  induction rows generalizing y pixels with
  | zero => exact .inl ⟨pixels, rfl, rfl⟩
  | succ rows ih =>
    rcases writeRow_cases width r (r.y.toNat + y) (tile.row (max r.width.toNat 1) y) pixels with
      ⟨next, hnext, hsize⟩ | herror
    · rw [Image.writeRows_succ_of_ok hnext, ← hsize]
      exact ih (y + 1) next
    · refine .inr ⟨pixels, ?_⟩
      rw [writeRows, Image.bind_of_error herror]

/-- What pasting returns and what it leaves in the buffer: the size is kept, and so is every pixel
if the region is refused. -/
theorem pasteHere_cases (tile : PixelBuffer π) (x y : UInt32) (b : PixelBuffer π) :
    (∃ out, tile.pasteHere x y b = .ok () out ∧ out.toSize = b.toSize ∧
        out.pixels.size = b.pixels.size) ∨
      tile.pasteHere x y b
        = .error (.refused (.invalidRegion (tile.footprint x y) b.toSize)) b ∨
      ∃ out, tile.pasteHere x y b = .error .panic out ∧ out.toSize = b.toSize := by
  by_cases hfits : (tile.footprint x y).fitsWithin b.toSize = true
  · rw [pasteHere_of_fits hfits]
    rcases writeRows_cases tile b.width.toNat (tile.footprint x y)
      (tile.pixels.size / max tile.width.toNat 1) 0 b.pixels with ⟨out, hout, hsize⟩ | ⟨out, hout⟩
    · rw [hout]
      exact .inl ⟨_, rfl, rfl, hsize⟩
    · rw [hout]
      exact .inr (.inr ⟨_, rfl, rfl⟩)
  · exact .inr (.inl (pasteHere_of_not_fits hfits))

theorem toSize_pasteHere {out : PixelBuffer π} (h : tile.pasteHere x y b = .ok () out) :
    out.toSize = b.toSize := by
  rcases tile.pasteHere_cases x y b with ⟨next, hnext, hs, -⟩ | hnext | ⟨next, hnext, -⟩
  all_goals
    rw [hnext] at h
    cases h
  exact hs

theorem toSize_of_pasteHere_error {out : PixelBuffer π} {e : Failure RasterError}
    (h : tile.pasteHere x y b = .error e out) : out.toSize = b.toSize := by
  rcases tile.pasteHere_cases x y b with ⟨next, hnext, -⟩ | hnext | ⟨next, hnext, hs⟩
  all_goals
    rw [hnext] at h
    cases h
  · rfl
  · exact hs

theorem eq_of_pasteHere_refused {out : PixelBuffer π} {e : RasterError}
    (h : tile.pasteHere x y b = .error (.refused e) out) : out = b := by
  rcases tile.pasteHere_cases x y b with ⟨next, hnext, -⟩ | hnext | ⟨next, hnext, -⟩
  all_goals
    rw [hnext] at h
    cases h
  rfl

end PixelBuffer

/-! ## what cropping and pasting give -/

namespace Image

variable {π : Type}

theorem exists_crop (img : Image π) {r : Region} (h : r.Inside img.toSize) :
    ∃ piece : Image π, img.buffer.crop r = .ok piece.buffer ∧ piece.toSize = r.toSize ∧
      ∀ i j, i < r.width.toNat → j < r.height.toNat →
        piece.at? i j = img.at? (r.x.toNat + i) (r.y.toNat + j) :=
  ⟨img.cut r h, img.crop_eq_cut h, rfl, fun _ _ => img.at?_cut r h⟩

/-- A tile can be pasted to a region of its size inside an image: the region has its pixels then,
and the rest of the image is as before. -/
theorem exists_paste (img : Image π) {r : Region} (h : r.Inside img.toSize) {tile : Image π}
    (hs : tile.toSize = r.toSize) :
    ∃ pasted : Image π, img.buffer.paste tile.buffer r.x r.y = .ok pasted.buffer ∧
      pasted.toSize = img.toSize ∧
      (∀ i j, r.Contains i j → pasted.at? i j = tile.at? (i - r.x.toNat) (j - r.y.toNat)) ∧
      ∀ i j, ¬ r.Contains i j → pasted.at? i j = img.at? i j := by
  have hfoot := Size.footprint_eq hs
  have h' : (tile.footprint r.x r.y).Inside img.toSize := hfoot.symm ▸ h
  refine ⟨_, img.paste_eq_inlay tile h', rfl, fun i j hc => ?_, fun i j hc => ?_⟩
  · exact img.at?_inlay_of_contains tile h' (hfoot.symm ▸ hc)
  · exact img.at?_inlay_of_not_contains tile h' (hfoot.symm ▸ hc)

theorem slice_eq_none_of_lt (img : Image π) {start count : Nat} (h : img.area < start + count) :
    img.buffer.slice? start count = none := by
  rw [PixelBuffer.slice?, img.whole_buffer]
  exact if_neg (Nat.not_le_of_lt h)

theorem buffer_of_ok {a b : Image π}
    (h : (.ok a.buffer : Except (Failure RasterError) (PixelBuffer π)) = .ok b.buffer) : a = b :=
  buffer_inj (Except.ok.inj h)

/-! ## which regions succeed -/

section
variable {img tile : Image π} {r : Region} (h : r.EndsInWords img.toSize)
include h

theorem crop_of_not_inside (hout : ¬ r.Inside img.toSize) :
    img.buffer.crop r = .error (.refused (.invalidRegion r img.toSize)) :=
  PixelBuffer.crop_of_not_fits fun hfits => hout ((Region.fitsWithin_iff_inside h).mp hfits)

theorem paste_of_not_inside (hs : tile.toSize = r.toSize) (hout : ¬ r.Inside img.toSize) :
    img.buffer.paste tile.buffer r.x r.y = .error (.refused (.invalidRegion r img.toSize)) :=
  PixelBuffer.paste_of_not_fits (b := img.buffer) hs fun hfits =>
    hout ((Region.fitsWithin_iff_inside h).mp hfits)

theorem exists_crop_iff : (∃ piece, img.buffer.crop r = .ok piece) ↔ r.Inside img.toSize := by
  refine ⟨fun ⟨piece, hpiece⟩ => Decidable.byContradiction fun hout => ?_, fun hin => ?_⟩
  · cases (crop_of_not_inside h hout).symm.trans hpiece
  · obtain ⟨piece, hpiece, -⟩ := img.exists_crop hin
    exact ⟨_, hpiece⟩

theorem exists_paste_iff (hs : tile.toSize = r.toSize) :
    (∃ pasted, img.buffer.paste tile.buffer r.x r.y = .ok pasted) ↔ r.Inside img.toSize := by
  refine ⟨fun ⟨pasted, hpasted⟩ => Decidable.byContradiction fun hout => ?_, fun hin => ?_⟩
  · cases (paste_of_not_inside h hs hout).symm.trans hpasted
  · obtain ⟨pasted, hpasted, -⟩ := img.exists_paste hin hs
    exact ⟨_, hpasted⟩

end

/-! ## cropping and pasting at one place -/

section
variable {img : Image π} {r : Region} (h : r.Inside img.toSize)
include h

theorem paste_crop {piece : Image π} (hpiece : img.buffer.crop r = .ok piece.buffer) :
    img.buffer.paste piece.buffer r.x r.y = .ok img.buffer := by
  obtain ⟨cropped, hcropped, hsize, hat⟩ := img.exists_crop h
  obtain rfl := buffer_of_ok (hcropped.symm.trans hpiece)
  obtain ⟨pasted, hpasted, hps, hin, hout⟩ := img.exists_paste h hsize
  have hsame : pasted = img := by
    refine ext_at? hps fun i j _ _ => ?_
    by_cases hc : r.Contains i j
    · obtain ⟨h1, h2⟩ := hc
      rw [hin i j ⟨h1, h2⟩, hat _ _ (by omega) (by omega), Nat.add_sub_of_le h1.1,
        Nat.add_sub_of_le h2.1]
    · exact hout i j hc
  rw [hpasted, hsame]

theorem crop_paste {tile pasted : Image π} (hs : tile.toSize = r.toSize)
    (hpasted : img.buffer.paste tile.buffer r.x r.y = .ok pasted.buffer) :
    pasted.buffer.crop r = .ok tile.buffer := by
  obtain ⟨out, hout, hos, hin, -⟩ := img.exists_paste h hs
  obtain rfl := buffer_of_ok (hout.symm.trans hpasted)
  obtain ⟨again, hagain, hsize, hat⟩ := out.exists_crop (r := r) (hos ▸ h)
  have hsame : again = tile := by
    refine ext_at? (hsize.trans hs.symm) fun i j hi hj => ?_
    rw [hsize] at hi hj
    have hc : r.Contains (r.x.toNat + i) (r.y.toNat + j) := ⟨by omega, by omega⟩
    rw [hat i j hi hj, hin _ _ hc, Nat.add_sub_cancel_left, Nat.add_sub_cancel_left]
  rw [hagain, hsame]

theorem paste_paste {first between tile : Image π} (hf : first.toSize = r.toSize)
    (hs : tile.toSize = r.toSize)
    (hbetween : img.buffer.paste first.buffer r.x r.y = .ok between.buffer) :
    between.buffer.paste tile.buffer r.x r.y = img.buffer.paste tile.buffer r.x r.y := by
  obtain ⟨next, hnext, hns, -, hkept⟩ := img.exists_paste h hf
  obtain rfl := buffer_of_ok (hnext.symm.trans hbetween)
  obtain ⟨last, hlast, hls, hin, hout⟩ := next.exists_paste (r := r) (hns ▸ h) hs
  obtain ⟨pasted, hpasted, hps, hin', hout'⟩ := img.exists_paste h hs
  have hsame : last = pasted := by
    refine ext_at? ((hls.trans hns).trans hps.symm) fun i j _ _ => ?_
    by_cases hc : r.Contains i j
    · rw [hin i j hc, hin' i j hc]
    · rw [hout i j hc, hkept i j hc, hout' i j hc]
  rw [hlast, hpasted, hsame]

end

end Image

variable {π : Type}

/-- **Regions are judged exactly**, where no edge beyond the largest word is taken for that word:
those inside the image can be cropped and pasted to, and no row of them leaves the buffer; every
other one is refused with its own bounds. -/
theorem regions_are_judged_exactly (img : Image π) (r : Region) (h : r.EndsInWords img.toSize) :
    (r.fitsWithin img.toSize = true ↔ r.Inside img.toSize) ∧
    ((∃ piece, img.buffer.crop r = .ok piece) ↔ r.Inside img.toSize) ∧
    (∀ tile : Image π, tile.toSize = r.toSize →
      ((∃ pasted, img.buffer.paste tile.buffer r.x r.y = .ok pasted) ↔ r.Inside img.toSize)) ∧
    (¬ r.Inside img.toSize →
      img.buffer.crop r = .error (.refused (.invalidRegion r img.toSize)) ∧
      ∀ tile : Image π, tile.toSize = r.toSize →
        img.buffer.paste tile.buffer r.x r.y = .error (.refused (.invalidRegion r img.toSize))) ∧
    (r.fitsWithin img.toSize = true → ∀ y, r.y.toNat ≤ y → y < r.bottom.toNat →
      ∃ row, img.buffer.slice? (y * img.width.toNat + r.x.toNat) r.width.toNat = some row) := by
  have hiff := Region.fitsWithin_iff_inside h
  refine ⟨hiff, Image.exists_crop_iff h, fun tile => Image.exists_paste_iff h,
    fun hout => ⟨Image.crop_of_not_inside h hout, fun tile hs => ?_⟩, fun hfits y _ hy => ?_⟩
  · exact Image.paste_of_not_inside h hs hout
  · have hin := hiff.mp hfits
    have hbottom := Region.bottom_of_inside hin
    obtain ⟨row, hrow, -⟩ := img.exists_slice (y := y) hin.1 (by have := hin.2; omega)
    exact ⟨row, hrow⟩

/-- A region that ends beyond the largest word is refused by an image that does not. -/
theorem region_beyond_words_is_refused :
    (Region.of 0xffffffff 0 2 1).EndsInWords ⟨2, 1⟩ ∧
      (Image.fill ⟨2, 1⟩ (0.5 : Float32)).buffer.crop (.of 0xffffffff 0 2 1)
        = .error (.refused (.invalidRegion (.of 0xffffffff 0 2 1) ⟨2, 1⟩)) :=
  ⟨by decide, ((regions_are_judged_exactly (Image.fill ⟨2, 1⟩ (0.5 : Float32))
    (.of 0xffffffff 0 2 1) (by decide)).2.2.2.1 (by decide)).1⟩

/-- A region one column beyond an image as wide as words go is accepted: it is cropped if it has no
rows, and its first row leaves the buffer otherwise. -/
theorem edge_beyond_words_is_accepted :
    ¬ (Region.of 0xffffffff 0 1 0).Inside ⟨0xffffffff, 0⟩ ∧
      (Image.fill ⟨0xffffffff, 0⟩ (0.0 : Float32)).buffer.crop (.of 0xffffffff 0 1 0)
        = .ok (Image.fill ⟨1, 0⟩ 0.0).buffer ∧
      (Image.fill ⟨0xffffffff, 1⟩ (0.0 : Float32)).buffer.crop (.of 0xffffffff 0 1 1)
        = .error .panic :=
  ⟨by decide, rfl, PixelBuffer.crop_of_slice_eq_none (by decide) (by decide)
    (Image.slice_eq_none_of_lt _ (by decide))⟩

/-- **Cropping and pasting at one place.**  Inside an image, a crop has the pixels of its region;
pasted back, it changes nothing; what is pasted is what is cropped after that, and nothing but the
region has changed; of two tiles pasted, the second one counts.  Wherever a tile is put, the image
keeps its size, and all its pixels if the region is refused. -/
theorem crop_and_paste_invert (img : Image π) (r : Region) (h : r.Inside img.toSize) :
    (∃ piece : Image π, img.buffer.crop r = .ok piece.buffer ∧ piece.toSize = r.toSize ∧
      (∀ i j : UInt32, i < r.width → j < r.height →
        piece.buffer.pixel? i j = img.buffer.pixel? (r.x + i) (r.y + j)) ∧
      img.buffer.paste piece.buffer r.x r.y = .ok img.buffer) ∧
    (∀ tile : Image π, tile.toSize = r.toSize →
      ∃ pasted : Image π, img.buffer.paste tile.buffer r.x r.y = .ok pasted.buffer ∧
        pasted.toSize = img.toSize ∧ pasted.buffer.crop r = .ok tile.buffer ∧
        (∀ i j : UInt32, ¬ r.Contains i.toNat j.toNat →
          pasted.buffer.pixel? i j = img.buffer.pixel? i j) ∧
        ∀ first : Image π, first.toSize = r.toSize →
          ∃ between : Image π, img.buffer.paste first.buffer r.x r.y = .ok between.buffer ∧
            between.buffer.paste tile.buffer r.x r.y = .ok pasted.buffer) ∧
    (∀ (tile : PixelBuffer π) (x y : UInt32),
      (∀ out, tile.pasteHere x y img.buffer = .ok () out → out.toSize = img.toSize) ∧
      (∀ e out, tile.pasteHere x y img.buffer = .error e out → out.toSize = img.toSize) ∧
      ∀ r s out, tile.pasteHere x y img.buffer = .error (.refused (.invalidRegion r s)) out →
        out = img.buffer) := by
  refine ⟨?_, fun tile hs => ?_, fun tile x y => ?_⟩
  · obtain ⟨piece, hpiece, hsize, hat⟩ := img.exists_crop h
    refine ⟨piece, hpiece, hsize, fun i j hi hj => ?_, Image.paste_crop h hpiece⟩
    rw [Image.pixel?_buffer, Image.pixel?_buffer, toNat_add_of_le h.1 hi, toNat_add_of_le h.2 hj]
    exact hat _ _ hi hj
  · obtain ⟨pasted, hpasted, hps, -, hout⟩ := img.exists_paste h hs
    refine ⟨pasted, hpasted, hps, Image.crop_paste h hs hpasted, fun i j hc => ?_,
      fun first hf => ?_⟩
    · rw [Image.pixel?_buffer, Image.pixel?_buffer]
      exact hout _ _ hc
    · obtain ⟨between, hbetween, -⟩ := img.exists_paste h hf
      exact ⟨between, hbetween, (Image.paste_paste h hf hs hbetween).trans hpasted⟩
  · exact ⟨fun out => PixelBuffer.toSize_pasteHere, fun e out =>
      PixelBuffer.toSize_of_pasteHere_error, fun r s out => PixelBuffer.eq_of_pasteHere_refused⟩

/-- Two pixels of six written over and read back. -/
theorem crop_of_pasted_pair : (Region.of 1 0 2 1).Inside ⟨3, 2⟩ ∧
    ∃ pasted : Mask, (⟨⟨3, 2⟩, #v[0.0, 0.125, 0.25, 0.5, 0.75, 1.0]⟩ : Mask).buffer.paste
        (⟨⟨2, 1⟩, #v[1.0, 0.5]⟩ : Mask).buffer 1 0 = .ok pasted.buffer ∧
      pasted.buffer.crop (.of 1 0 2 1) = .ok (⟨⟨2, 1⟩, #v[1.0, 0.5]⟩ : Mask).buffer := by
  obtain ⟨-, hpaste, -⟩ := crop_and_paste_invert
    (⟨⟨3, 2⟩, #v[0.0, 0.125, 0.25, 0.5, 0.75, 1.0]⟩ : Mask) (.of 1 0 2 1) (by decide)
  obtain ⟨pasted, h1, -, h2, -⟩ := hpaste ⟨⟨2, 1⟩, #v[1.0, 0.5]⟩ rfl
  exact ⟨by decide, pasted, h1, h2⟩

end HueSaturation
