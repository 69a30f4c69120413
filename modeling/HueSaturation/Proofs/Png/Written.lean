import HueSaturation.Proofs.Png.Interleaved

/-!
# What is written

A bitmap that is whole is read as a picture, and a picture whose alpha fits its pixels is written
as a bitmap, whatever its numbers are. Read and written again, a bitmap keeps its samples, with
gray as three equal channels. Written and read again, a picture has its numbers moved to the
nearest ones that are samples, and stays as it is from then on.

* `Bitmap.Whole`             all bytes of all samples are there;
* `Bitmap.expanded`          the bitmap without gray;
* `Picture.ofBitmap_toBitmap`, `toBitmap_snapped`   what is read of a picture that was written;
* `Picture.toBitmap_cases`   which pictures are written;
* `Picture.exists_ofBitmap`   what is written of a bitmap that was read;
* `Picture.toBitmap_recolored`   colors of the same values are the same samples;
* `Bitmap.alphas`            the alpha samples alone.
-/

namespace HueSaturation

open Binary32 (InUnit)

variable {d : Depth} {b out : Bitmap}

/-! ## bitmaps -/

namespace ColorType

variable {α β : Type}

def hasAlpha : ColorType → Bool
  | gray | rgb | indexed => false
  | grayAlpha | rgba => true

def expanded : ColorType → ColorType
  | gray => rgb
  | grayAlpha => rgba
  | rgb => rgb
  | rgba => rgba
  | indexed => indexed

/-- The samples of all pixels, with gray as three equal channels. -/
def expandSamples (color : ColorType) (xs : Array α) : Array α :=
  match color with
  | gray => xs.flatMap fun y => #[y, y, y]
  | grayAlpha => (pairs xs).flatMap fun p => #[p.1, p.1, p.1, p.2]
  | rgb | rgba | indexed => xs

theorem mem_of_mem_expandSamples {color : ColorType} {xs : Array α} {v : α}
    (h : v ∈ color.expandSamples xs) : v ∈ xs := by
  cases color with
  | rgb | rgba | indexed => exact h
  | gray =>
    obtain ⟨y, hy, hv⟩ := Array.mem_flatMap.1 h
    simp only [List.mem_toArray, List.mem_cons, List.not_mem_nil, or_false, or_self] at hv
    exact hv ▸ hy
  | grayAlpha =>
    obtain ⟨p, hp, hv⟩ := Array.mem_flatMap.1 h
    obtain ⟨h1, h2⟩ := mem_of_mem_pairs hp
    simp only [List.mem_toArray, List.mem_cons, List.not_mem_nil, or_false] at hv
    rcases hv with rfl | rfl | rfl | rfl
    · exact h1
    · exact h1
    · exact h1
    · exact h2

theorem expandSamples_map (f : α → β) (color : ColorType) (xs : Array α) :
    color.expandSamples (xs.map f) = (color.expandSamples xs).map f := by
  cases color with
  | rgb | rgba | indexed => rfl
  | gray => simp [expandSamples, Array.flatMap_map, Array.map_flatMap]
  | grayAlpha => simp [expandSamples, pairs_map, Array.flatMap_map, Array.map_flatMap]

theorem size_expandSamples {n : ℕ} {color : ColorType} {xs : Array α}
    (h : xs.size = n * color.channels) :
    (color.expandSamples xs).size = n * color.expanded.channels := by
  cases color with
  | rgb | rgba | indexed => exact h
  | gray =>
    have hsize := size_flat (fun y : α => #v[y, y, y]) xs
    rw [h] at hsize
    exact hsize.trans (by simp [channels, expanded])
  | grayAlpha =>
    have hsize := size_flat (fun p : α × α => #v[p.1, p.1, p.1, p.2]) (pairs xs)
    rw [pairs, Array.size_map, size_chunks, h] at hsize
    exact hsize.trans (by simp [channels, expanded])

/-- Gray is taken apart as the three equal channels that it stands for. -/
theorem split?_expanded (color : ColorType) (x : Array Float32) :
    color.expanded.split? (color.expandSamples x) = color.split? x := by
  cases color with
  | gray | rgb | rgba | indexed => rfl
  | grayAlpha =>
    have hpixels := chunks_flat (by decide : 0 < 3 + 1)
      (fun p : Float32 × Float32 => #v[p.1, p.1, p.1, p.2]) (pairs x)
    have hchunks : chunks (3 + 1) (grayAlpha.expandSamples x) = _ := hpixels
    show some (splitAlpha 3 _ _) = some (splitAlpha 1 _ _)
    rw [splitAlpha, lasts, hchunks]
    simp [splitAlpha, lasts, firstThree, pairs, Array.flatMap_map, Function.comp_def, Vector.get]

end ColorType

namespace Bitmap

/-- The bitmap is not made of indices, and has all bytes of the samples of its pixels. -/
structure Whole (d : Depth) (b : Bitmap) : Prop where
  bits : b.bits = d.bits
  color : b.color ≠ .indexed
  count : b.bytes.size = b.size.area * b.color.channels * d.width

/-- The bitmap with gray as three equal channels. -/
def expanded (d : Depth) (b : Bitmap) : Bitmap :=
  { b with
    color := b.color.expanded
    bytes := (b.color.expandSamples (d.samples b.bytes)).flatMap d.bytes }

theorem samples_expanded (d : Depth) (b : Bitmap) :
    d.samples (b.expanded d).bytes = b.color.expandSamples (d.samples b.bytes) :=
  d.samples_bytes fun v hv => d.samples_le b.bytes v (ColorType.mem_of_mem_expandSamples hv)

theorem Whole.expanded_eq (h : b.Whole d) (hcolor : b.color = .rgb ∨ b.color = .rgba) :
    b.expanded d = b := by
  obtain ⟨size, color, bits, bytes⟩ := b
  have hbytes := Depth.bytes_samples h.count
  rcases hcolor with rfl | rfl
  · exact congrArg (Bitmap.mk size .rgb bits) hbytes
  · exact congrArg (Bitmap.mk size .rgba bits) hbytes

theorem Whole.expanded (h : b.Whole d) : (b.expanded d).Whole d
    ∧ ((b.expanded d).color = .rgb ∨ (b.expanded d).color = .rgba) := by
  have hsamples := ColorType.size_expandSamples (Depth.size_samples h.count)
  have hcolor := h.color
  refine ⟨⟨h.bits, ?_, ?_⟩, ?_⟩
  · show b.color.expanded ≠ .indexed
    cases hc : b.color <;> simp_all [ColorType.expanded]
  · show ((b.color.expandSamples _).flatMap d.bytes).size = _
    rw [Depth.size_bytes, hsamples]
    rfl
  · show b.color.expanded = .rgb ∨ b.color.expanded = .rgba
    cases hc : b.color <;> simp_all [ColorType.expanded]

end Bitmap

/-! ## pictures -/

namespace Picture

variable {p q : Picture} {x : Array Float32}

theorem ofBits?_bits (d : Depth) : Depth.ofBits? d.bits = some d := by
  cases d <;> rfl

/-- A bitmap is read as the picture whose numbers in a row are those of its samples. -/
theorem ofBitmap_of_interleaved (h1 : b.bits = p.depth.bits) (h2 : p.color = b.color)
    (h3 : p.colors.toSize = b.size)
    (h4 : p.interleaved = .ok ((p.depth.samples b.bytes).map p.depth.normalize)) :
    ofBitmap b = .ok p := by
  have hsplit := split?_interleaved h4
  rw [h2] at hsplit
  rw [ofBitmap, h1, ofBits?_bits]
  simp only [hsplit]
  rw [← h3, Image.ofData_data]
  rfl

theorem ofBitmap_expanded (h : b.Whole d) : ofBitmap (b.expanded d) = ofBitmap b := by
  have hbits : (b.expanded d).bits = d.bits := h.bits
  have hcolor : (b.expanded d).color = b.color.expanded := rfl
  obtain ⟨r, hsplit⟩ : ∃ r, b.color.split? ((d.samples b.bytes).map d.normalize) = some r := by
    cases hindexed : b.color with
    | indexed => exact absurd hindexed h.color
    | gray | grayAlpha | rgb | rgba => exact ⟨_, rfl⟩
  rw [ofBitmap, ofBitmap, hbits, h.bits, ofBits?_bits]
  simp only [Bitmap.samples_expanded, hcolor, ← ColorType.expandSamples_map,
    ColorType.split?_expanded, hsplit]
  rfl

theorem toBitmap_eq (h : p.interleaved = .ok x) :
    p.toBitmap = .ok ⟨p.colors.toSize, p.color, p.depth.bits,
      x.flatMap fun y => p.depth.bytes (p.depth.quantize y)⟩ := by
  rw [toBitmap, h]
  rfl

theorem toBitmap_cases (p : Picture) :
    (∃ x, p.interleaved = .ok x ∧ p.toBitmap = .ok ⟨p.colors.toSize, p.color, p.depth.bits,
        x.flatMap fun y => p.depth.bytes (p.depth.quantize y)⟩)
      ∨ ∃ a, p.alpha = some a ∧ a.size ≠ p.colors.area
        ∧ p.toBitmap = .error (.alphaCount a.size p.colors.area) := by
  by_cases h : ∀ a, p.alpha = some a → a.size = p.colors.area
  · obtain ⟨x, hx⟩ := exists_interleaved h
    exact .inl ⟨x, hx, toBitmap_eq hx⟩
  · push Not at h
    obtain ⟨a, h1, h2⟩ := h
    refine .inr ⟨a, h1, h2, ?_⟩
    rw [toBitmap, interleaved_of_ne h1 h2]
    rfl

/-! ### written and read -/

/-- The picture with the nearest number that is a sample in place of each. -/
def snapped (p : Picture) : Picture :=
  p.mapFloats p.depth.snap

theorem color_mapFloats (f : Float32 → Float32) (p : Picture) :
    (p.mapFloats f).color = p.color := by
  rw [color, color, mapFloats, Option.isSome_map]

theorem ofBitmap_toBitmap (h : p.toBitmap = .ok b) : ofBitmap b = .ok p.snapped := by
  rcases toBitmap_cases p with ⟨x, hx, hbitmap⟩ | ⟨a, -, -, hbitmap⟩
  swap
  · rw [hbitmap] at h
    cases h
  rw [hbitmap] at h
  obtain rfl := Except.ok.inj h
  refine ofBitmap_of_interleaved rfl (color_mapFloats _ p) rfl ?_
  rw [snapped, interleaved_mapFloats _ hx]
  show _ = Except.ok ((p.depth.samples _).map p.depth.normalize)
  rw [Depth.samples_quantized, Array.map_map]
  rfl

/-- The nearest samples are what is written. -/
theorem toBitmap_snapped (p : Picture) : p.snapped.toBitmap = p.toBitmap := by
  rcases toBitmap_cases p with ⟨x, hx, hbitmap⟩ | ⟨a, h1, h2, hbitmap⟩
  · have hback : ((x.map p.depth.snap).flatMap fun y => p.depth.bytes (p.depth.quantize y))
        = x.flatMap fun y => p.depth.bytes (p.depth.quantize y) := by
      simp only [Array.flatMap_map, Depth.quantize_snap]
    have hcolor : p.snapped.color = p.color := color_mapFloats _ p
    rw [hbitmap, ← hback, ← hcolor]
    exact toBitmap_eq (interleaved_mapFloats _ hx)
  · have h1' : p.snapped.alpha = some (a.map p.depth.snap) := by
      rw [snapped, mapFloats, h1]
      rfl
    have h2' : (a.map p.depth.snap).size ≠ p.snapped.colors.area := by
      rw [Array.size_map]
      exact h2
    rw [hbitmap, toBitmap, interleaved_of_ne h1' h2', Array.size_map]
    rfl

theorem toBitmap_congr (h : p.snapped = q.snapped) : p.toBitmap = q.toBitmap := by
  rw [← toBitmap_snapped p, h, toBitmap_snapped]

/-! ### read and written -/

theorem exists_ofBitmap (h : b.Whole d) :
    ∃ p, ofBitmap b = .ok p ∧ p.toBitmap = .ok (b.expanded d) ∧ p.snapped = p := by
  -- without gray the picture is put together again as it was taken apart
  obtain ⟨hwhole, hcolor⟩ := h.expanded
  obtain ⟨c, hc⟩ : ∃ c, c = b.expanded d := ⟨_, rfl⟩
  have hread : ofBitmap c = ofBitmap b := hc ▸ ofBitmap_expanded h
  rw [← hc] at hwhole hcolor ⊢
  have hsamples := Depth.size_samples hwhole.count
  rw [← Array.size_map (f := d.normalize)] at hsamples
  obtain ⟨p, hx, h1, h2, rfl⟩ := exists_split d hcolor hsamples
  have hread' : ofBitmap c = .ok p := ofBitmap_of_interleaved hwhole.bits h1 h2 hx
  have hwritten : p.toBitmap = .ok c := by
    have hbytes := Depth.bytes_samples hwhole.count
    rw [toBitmap_eq hx, h1, h2, ← hwhole.bits, ← Array.flatMap_map (g := p.depth.bytes),
      Depth.quantize_samples, hbytes]
  refine ⟨p, hread ▸ hread', hwritten, ?_⟩
  -- `p` is what is read of the bitmap that is written of it
  exact Except.ok.inj ((ofBitmap_toBitmap hwritten).symm.trans hread')

theorem inUnit_snap (d : Depth) (y : Float32) : InUnit (d.snap y) :=
  (Depth.val_normalize (d.quantize_le y)).1

theorem toBitmap_recolored (hp : p.snapped = p) {g : Rgb Float32 → Rgb Float32}
    (hg : ∀ c, c.InUnit → (g c).Same 0 c) :
    { p with colors := p.colors.map g }.toBitmap = p.toBitmap := by
  -- the numbers of samples are in `[0, 1]`, and all numbers of `p` are those of samples
  have hunit : ∀ c ∈ p.colors.pixels, c.InUnit := by
    intro c hc
    have hpixels : p.snapped.colors.pixels = p.colors.pixels.map (Rgb.map p.depth.snap) := rfl
    rw [← hp] at hc
    rw [hpixels] at hc
    obtain ⟨c', -, rfl⟩ := Vector.mem_map.1 hc
    exact ⟨inUnit_snap _ _, inUnit_snap _ _, inUnit_snap _ _⟩
  have hsnap : ∀ c ∈ p.colors.pixels, (g c).map p.depth.snap = c.map p.depth.snap := by
    intro c hc
    obtain ⟨h1, h2, h3⟩ := hg c (hunit c hc)
    simp only [Rgb.map, Depth.snap, Depth.quantize_of_same h1, Depth.quantize_of_same h2,
      Depth.quantize_of_same h3]
  have hpixels : (p.colors.pixels.map g).map (Rgb.map p.depth.snap)
      = p.colors.pixels.map (Rgb.map p.depth.snap) := by
    rw [Vector.map_map]
    exact Vector.map_congr_left hsnap
  refine toBitmap_congr ?_
  show Picture.mk ⟨p.colors.toSize, (p.colors.pixels.map g).map _⟩ _ _ = _
  rw [hpixels]
  rfl

end Picture

/-! ## alpha -/

/-- The alpha samples, pixel by pixel, if there are any. -/
def Bitmap.alphas (d : Depth) (b : Bitmap) : Option (Array UInt16) :=
  b.color.alphas (d.samples b.bytes)

namespace Picture

variable {p : Picture}

/-- A bitmap that is read keeps its size and its depth, and its alpha as numbers. -/
theorem layout_ofBitmap (h : ofBitmap b = .ok p) : b.bits = p.depth.bits ∧ p.colors.toSize = b.size
    ∧ p.alpha = (b.alphas p.depth).map (Array.map p.depth.normalize) := by
  rw [ofBitmap] at h
  split at h
  · cases h
  next d hd =>
  split at h
  · cases h
  next data alpha hsplit =>
  cases hdata : Image.ofData (π := Rgb Float32) b.size data with
  | error e =>
    rw [hdata] at h
    cases h
  | ok colors =>
    rw [hdata] at h
    obtain rfl := Except.ok.inj h
    refine ⟨?_, (Image.ofData_eq_ok_iff.1 hdata).1, ?_⟩
    · cases hbits : b.bits <;> rw [hbits] at hd <;> cases hd <;> rfl
    · rw [Bitmap.alphas, ← ColorType.alphas_map]
      exact ColorType.split?_eq hsplit

/-- A bitmap that is written has all of its samples, the size of its picture, and its alpha. -/
theorem layout_toBitmap (h : p.toBitmap = .ok b) : b.size = p.colors.toSize ∧ b.Whole p.depth
    ∧ b.alphas p.depth = p.alpha.map (Array.map p.depth.quantize) := by
  rcases toBitmap_cases p with ⟨x, hx, hbitmap⟩ | ⟨a, -, -, hbitmap⟩
  swap
  · rw [hbitmap] at h
    cases h
  rw [hbitmap] at h
  obtain rfl := Except.ok.inj h
  refine ⟨rfl, ⟨rfl, ?_, ?_⟩, ?_⟩
  · show p.color ≠ .indexed
    cases halpha : p.alpha <;> simp [color, halpha]
  · show (x.flatMap fun y => p.depth.bytes (p.depth.quantize y)).size = _
    rw [← Array.flatMap_map (g := p.depth.bytes), Depth.size_bytes, Array.size_map,
      size_interleaved hx]
  rw [Bitmap.alphas, Depth.samples_quantized, ColorType.alphas_map,
    ← ColorType.split?_eq (split?_interleaved hx)]

theorem quantize_alphas (d : Depth) (b : Bitmap) :
    ((b.alphas d).map (Array.map d.normalize)).map (Array.map d.quantize) = b.alphas d := by
  rw [Bitmap.alphas, ← ColorType.alphas_map, ← ColorType.alphas_map, Depth.quantize_samples]

end Picture
end HueSaturation
