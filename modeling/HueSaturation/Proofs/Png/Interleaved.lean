import HueSaturation.Proofs.Png.Lossless
import HueSaturation.Proofs.Raster.Buffer

/-!
# Samples in a row

A list of bytes holds the samples of a pixel one after the other, and the bytes of a sample, the
high one first. Taking samples and pixels apart and putting them together again are inverse, for
lists of any length.

* `Depth.samples_bytes`, `bytes_samples`   bytes of samples, and samples of bytes;
* `ColorType.alphas`            the alpha of each pixel in a list;
* `splitAlpha_joinAlpha`, `joinAlpha_splitAlpha`   pixels taken apart and put together;
* `Picture.split?_interleaved`   the numbers of a picture in a row, taken apart;
* `Picture.exists_split`         numbers in a row that are a picture's.
-/

namespace HueSaturation

/-! ## bytes -/

namespace Depth

variable {d : Depth} {v : UInt16} {vs : Array UInt16} {bs : Array UInt8}

/-- How many bytes a sample is. -/
def width : Depth → ℕ
  | eight => 1
  | sixteen => 2

theorem le_max_sixteen (v : UInt16) : v ≤ Depth.sixteen.max :=
  UInt16.le_iff_toNat_le.2 (Nat.le_of_lt_succ v.toNat_lt)

theorem toNat_word (a b : UInt8) : (word a b).toNat = a.toNat * 256 + b.toNat := by
  have ha := a.toNat_lt
  have hb := b.toNat_lt
  simp only [word, UInt16.toNat_add, UInt16.toNat_mul, UInt8.toNat_toUInt16, UInt16.toNat_ofNat]
  omega

theorem toNat_high (v : UInt16) : (v >>> 8).toUInt8.toNat = v.toNat / 256 := by
  have hv := v.toNat_lt
  have hshift : (v >>> 8).toNat = v.toNat / 2 ^ 8 := by
    rw [UInt16.toNat_shiftRight]
    exact Nat.shiftRight_eq_div_pow _ 8
  rw [UInt16.toNat_toUInt8, hshift]
  omega

theorem word_high_low (v : UInt16) : word (v >>> 8).toUInt8 v.toUInt8 = v := by
  rw [← UInt16.toNat_inj, toNat_word, toNat_high, UInt16.toNat_toUInt8]
  exact Nat.div_add_mod' v.toNat 256

theorem high_word (a b : UInt8) : (word a b >>> 8).toUInt8 = a := by
  have hb := b.toNat_lt
  rw [← UInt8.toNat_inj, toNat_high, toNat_word]
  omega

theorem low_word (a b : UInt8) : (word a b).toUInt8 = b := by
  have hb := b.toNat_lt
  rw [← UInt8.toNat_inj, UInt16.toNat_toUInt8, toNat_word]
  omega

theorem samples_le (d : Depth) (bs : Array UInt8) : ∀ v ∈ d.samples bs, v ≤ d.max := by
  intro v hv
  cases d with
  | eight =>
    obtain ⟨b, -, rfl⟩ := Array.mem_map.1 hv
    rw [UInt16.le_iff_toNat_le, UInt8.toNat_toUInt16]
    exact Nat.le_of_lt_succ b.toNat_lt
  | sixteen => exact le_max_sixteen v

theorem quantize_samples (d : Depth) (bs : Array UInt8) :
    ((d.samples bs).map d.normalize).map d.quantize = d.samples bs := by
  have hback : ∀ v ∈ d.samples bs, d.quantize (d.normalize v) = v := fun v hv =>
    quantize_normalize (d.samples_le bs v hv)
  rw [Array.map_map]
  exact (Array.map_congr_left hback).trans (Array.map_id _)

theorem samples_bytes (hvs : ∀ v ∈ vs, v ≤ d.max) : d.samples (vs.flatMap d.bytes) = vs := by
  cases d with
  | eight =>
    have hbytes : vs.flatMap Depth.eight.bytes = vs.map UInt16.toUInt8 := Array.map_eq_flatMap.symm
    have hback : ∀ v ∈ vs, v.toUInt8.toUInt16 = v := by
      intro v hv
      have hle : v.toNat ≤ 255 := UInt16.le_iff_toNat_le.1 (hvs v hv)
      refine UInt16.toNat_inj.1 ?_
      rw [UInt8.toNat_toUInt16, UInt16.toNat_toUInt8]
      omega
    rw [samples, hbytes, Array.map_map]
    exact (Array.map_congr_left hback).trans (Array.map_id _)
  | sixteen =>
    have hpairs : pairs (vs.flatMap Depth.sixteen.bytes) = _ :=
      pairs_flat (fun v : UInt16 => (v >>> 8).toUInt8) UInt16.toUInt8 vs
    rw [samples, hpairs, Array.map_map]
    exact (Array.map_congr_left fun v _ => word_high_low v).trans (Array.map_id _)

/-- The samples of bytes have these bytes, if no single byte is left over at the end. -/
theorem bytes_samples {n : ℕ} (h : bs.size = n * d.width) :
    (d.samples bs).flatMap d.bytes = bs := by
  cases d with
  | eight =>
    have hback : ∀ b : UInt8, Depth.eight.bytes b.toUInt16 = #[b] := fun b => by
      simp only [bytes, UInt8.toUInt8_toUInt16]
    rw [samples, Array.flatMap_map]
    simp only [hback, ← Array.map_eq_flatMap, Array.map_id']
  | sixteen =>
    have hback : ∀ p : UInt8 × UInt8, Depth.sixteen.bytes (word p.1 p.2) = #[p.1, p.2] := by
      intro p
      rw [bytes, high_word, low_word]
    rw [samples, Array.flatMap_map]
    simp only [hback]
    exact flat_pairs h

theorem size_samples {n : ℕ} (h : bs.size = n * d.width) : (d.samples bs).size = n := by
  cases d with
  | eight =>
    rw [samples, Array.size_map, h]
    exact Nat.mul_one n
  | sixteen =>
    rw [samples, Array.size_map, pairs, Array.size_map, size_chunks, h]
    exact Nat.mul_div_cancel n (by decide)

theorem size_bytes (d : Depth) (vs : Array UInt16) :
    (vs.flatMap d.bytes).size = vs.size * d.width := by
  cases d with
  | eight => exact size_flat (fun v : UInt16 => #v[v.toUInt8]) vs
  | sixteen => exact size_flat (fun v : UInt16 => #v[(v >>> 8).toUInt8, v.toUInt8]) vs

theorem samples_quantized (d : Depth) (x : Array Float32) :
    d.samples (x.flatMap fun y => d.bytes (d.quantize y)) = x.map d.quantize := by
  have hle : ∀ v ∈ x.map d.quantize, v ≤ d.max := by
    intro v hv
    obtain ⟨y, -, rfl⟩ := Array.mem_map.1 hv
    exact d.quantize_le y
  have h := samples_bytes hle
  rw [Array.flatMap_map] at h
  exact h

end Depth

/-! ## pixels -/

namespace ColorType

variable {α β : Type} {color : ColorType}

/-- The alpha of each pixel, where there is alpha. -/
def alphas (color : ColorType) (xs : Array α) : Option (Array α) :=
  match color with
  | grayAlpha => some (lasts 1 xs)
  | rgba => some (lasts 3 xs)
  | gray | rgb | indexed => none

theorem lasts_map (f : α → β) (n : ℕ) (xs : Array α) : lasts n (xs.map f) = (lasts n xs).map f := by
  simp [lasts, chunks_map, Vector.get]

theorem alphas_map (f : α → β) (color : ColorType) (xs : Array α) :
    color.alphas (xs.map f) = (color.alphas xs).map (Array.map f) := by
  cases color with
  | gray | rgb | indexed => rfl
  | grayAlpha | rgba => exact congrArg some (lasts_map f _ xs)

theorem split?_eq {x data : Array Float32} {alpha : Option (Array Float32)}
    (h : color.split? x = some (data, alpha)) : alpha = color.alphas x := by
  cases color with
  | indexed => cases h
  | gray | grayAlpha | rgb | rgba => exact (Prod.mk.inj (Option.some.inj h)).2.symm

end ColorType

/-! ## alpha and colors -/

section
variable {α : Type}

theorem firstThree_push (v : Vector α 3) (a : α) : firstThree (v.push a) = v := by
  refine Vector.ext fun i hi => ?_
  obtain rfl | rfl | rfl : i = 0 ∨ i = 1 ∨ i = 2 := by omega
  all_goals simp [firstThree]

theorem get_last_push (v : Vector α 3) (a : α) : (v.push a).get (Fin.last 3) = a :=
  Vector.getElem_push_last

theorem push_last (px : Vector α (3 + 1)) : (firstThree px).push (px.get (Fin.last 3)) = px := by
  refine Vector.ext fun i hi => ?_
  obtain rfl | rfl | rfl | rfl : i = 0 ∨ i = 1 ∨ i = 2 ∨ i = 3 := by omega
  all_goals rfl

end

section
variable {n : ℕ} {data alpha : Array Float32}

theorem size_joinAlpha (h1 : data.size = n * 3) (h2 : alpha.size = n) :
    (joinAlpha data alpha).size = n * 4 := by
  rw [joinAlpha, size_flat (fun px : Vector Float32 3 × Float32 => px.1.push px.2), Array.size_zip,
    size_chunks, h1, h2, Nat.mul_div_cancel n (by decide), Nat.min_self]

theorem joinAlpha_map (f : Float32 → Float32) (data alpha : Array Float32) :
    joinAlpha (data.map f) (alpha.map f) = (joinAlpha data alpha).map f := by
  simp only [joinAlpha, chunks_map, Array.zip_map, Array.flatMap_map, Array.map_flatMap,
    Prod.map_fst, Prod.map_snd, Vector.toArray_push, Vector.toArray_map, Array.map_push]

theorem joinAlpha_splitAlpha {x : Array Float32} (h : x.size = n * 4) :
    joinAlpha ((chunks (3 + 1) x).flatMap fun px => (firstThree px).toArray) (lasts 3 x) = x := by
  have hpixel : ∀ px : Vector Float32 (3 + 1),
      ((firstThree px).push (px.get (Fin.last 3))).toArray = px.toArray :=
    fun px => congrArg Vector.toArray (push_last px)
  have hcolors := chunks_flat (by decide : 0 < 3) (firstThree (α := Float32)) (chunks (3 + 1) x)
  -- colors and alpha are zipped out of the pixels that they were taken from
  calc joinAlpha _ _
      = (((chunks (3 + 1) x).map firstThree).zip (lasts 3 x)).flatMap fun px =>
          (px.1.push px.2).toArray := by
        rw [joinAlpha, ← hcolors]
    _ = (chunks (3 + 1) x).flatMap fun px =>
          ((firstThree px).push (px.get (Fin.last 3))).toArray := by
        rw [lasts, Array.zip_map', Array.flatMap_map]
    _ = (chunks (3 + 1) x).flatMap Vector.toArray :=
        congrArg (chunks (3 + 1) x).flatMap (funext hpixel)
    _ = x := flat_chunks (by decide) h

/-- Pixels taken apart are what they were made of. -/
theorem splitAlpha_joinAlpha (h1 : data.size = n * 3) (h2 : alpha.size = n) :
    splitAlpha 3 firstThree (joinAlpha data alpha) = (data, some alpha) := by
  obtain ⟨pixels, hpixels⟩ : ∃ pixels, pixels = (chunks 3 data).zip alpha := ⟨_, rfl⟩
  have hcount : (chunks 3 data).size = alpha.size := by
    rw [size_chunks, h1, h2, Nat.mul_div_cancel n (by decide)]
  have hdata : (pixels.flatMap fun px => px.1.toArray) = data := by
    rw [← Array.flatMap_map (f := Prod.fst) (g := Vector.toArray), hpixels,
      Array.map_fst_zip hcount.le, flat_chunks (by decide) h1]
  have halpha : pixels.map Prod.snd = alpha := by
    rw [hpixels, Array.map_snd_zip hcount.ge]
  rw [splitAlpha, lasts, joinAlpha, ← hpixels, chunks_flat (by decide), Array.map_map,
    Array.flatMap_map]
  refine Prod.ext ?_ (congrArg some ?_)
  · rw [← hdata]
    exact congrArg pixels.flatMap (funext fun px => congrArg Vector.toArray (firstThree_push _ _))
  · rw [← halpha]
    exact Array.map_congr_left fun px _ => get_last_push _ _

end

/-! ## pictures -/

namespace Picture

variable {p q : Picture} {x : Array Float32}

/-- The picture with another number in place of each. -/
def mapFloats (f : Float32 → Float32) (p : Picture) : Picture where
  colors := p.colors.map (Rgb.map f)
  alpha := p.alpha.map (Array.map f)
  depth := p.depth

theorem data_map (f : Float32 → Float32) (img : RgbImage) :
    (img.map (Rgb.map f)).data = img.data.map f := by
  have hpixel : ∀ c : Rgb Float32,
      (Channels.toVector (c.map f)).toArray = (Channels.toVector c).toArray.map f := fun c => by
    simp [Channels.toVector, Rgb.map]
  show (img.pixels.map (Rgb.map f)).toArray.flatMap _ = (img.pixels.toArray.flatMap _).map f
  rw [Vector.toArray_map, Array.flatMap_map, Array.map_flatMap]
  simp only [hpixel]

theorem interleaved_eq_ok_iff : p.interleaved = .ok x ↔
    p.alpha = none ∧ x = p.colors.data
      ∨ ∃ a, p.alpha = some a ∧ a.size = p.colors.area ∧ x = joinAlpha p.colors.data a := by
  obtain ⟨colors, alpha, d⟩ := p
  cases alpha with
  | none => simp [interleaved, eq_comm]
  | some a =>
    by_cases ha : a.size = colors.area
    · simp [interleaved, ha, eq_comm]
    · simp [interleaved, ha]

theorem interleaved_of_ne {a : Array Float32} (h1 : p.alpha = some a)
    (h2 : a.size ≠ p.colors.area) :
    p.interleaved = .error (.alphaCount a.size p.colors.area) := by
  rw [interleaved, h1]
  exact if_neg h2

theorem exists_interleaved (h : ∀ a, p.alpha = some a → a.size = p.colors.area) :
    ∃ x, p.interleaved = .ok x := by
  cases ha : p.alpha with
  | none => exact ⟨_, interleaved_eq_ok_iff.2 (.inl ⟨ha, rfl⟩)⟩
  | some a => exact ⟨_, interleaved_eq_ok_iff.2 (.inr ⟨a, ha, h a ha, rfl⟩)⟩

theorem size_interleaved (h : p.interleaved = .ok x) :
    x.size = p.colors.area * p.color.channels := by
  rcases interleaved_eq_ok_iff.1 h with ⟨h1, rfl⟩ | ⟨a, h1, h2, rfl⟩
  · rw [color, h1]
    exact p.colors.size_data
  · rw [color, h1]
    exact size_joinAlpha p.colors.size_data h2

theorem split?_interleaved (h : p.interleaved = .ok x) :
    p.color.split? x = some (p.colors.data, p.alpha) := by
  rcases interleaved_eq_ok_iff.1 h with ⟨h1, rfl⟩ | ⟨a, h1, h2, rfl⟩
  · rw [color, h1]
    rfl
  · rw [color, h1]
    exact congrArg some (splitAlpha_joinAlpha p.colors.size_data h2)

/-- Numbers in a row, as many as a size has samples, are the numbers of a picture. -/
theorem exists_split {size : Size} {color : ColorType} (d : Depth)
    (hcolor : color = .rgb ∨ color = .rgba) (h : x.size = size.area * color.channels) :
    ∃ p : Picture, p.interleaved = .ok x ∧ p.color = color ∧ p.colors.toSize = size
      ∧ p.depth = d := by
  rcases hcolor with rfl | rfl
  · obtain ⟨img, -, rfl, hdata⟩ := Image.exists_ofData (π := Rgb Float32) h
    exact ⟨⟨img, none, d⟩, congrArg Except.ok hdata, rfl, rfl, rfl⟩
  · have hcount : (chunks (3 + 1) x).size = size.area := by
      rw [size_chunks, h]
      exact Nat.mul_div_cancel _ (by decide)
    have hsize := size_flat (firstThree (α := Float32)) (chunks (3 + 1) x)
    rw [hcount] at hsize
    obtain ⟨img, -, rfl, hdata⟩ := Image.exists_ofData (π := Rgb Float32) hsize
    refine ⟨⟨img, some (lasts 3 x), d⟩, ?_, rfl, rfl, rfl⟩
    refine interleaved_eq_ok_iff.2 (.inr ⟨_, rfl, Array.size_map.trans hcount, ?_⟩)
    rw [hdata]
    exact (joinAlpha_splitAlpha h).symm

theorem interleaved_mapFloats (f : Float32 → Float32) (h : p.interleaved = .ok x) :
    (p.mapFloats f).interleaved = .ok (x.map f) := by
  have hdata := data_map f p.colors
  rcases interleaved_eq_ok_iff.1 h with ⟨h1, rfl⟩ | ⟨a, h1, h2, rfl⟩
  · refine interleaved_eq_ok_iff.2 (.inl ⟨?_, hdata.symm⟩)
    rw [mapFloats, h1]
    rfl
  · refine interleaved_eq_ok_iff.2 (.inr ⟨a.map f, ?_, (Array.size_map).trans h2, ?_⟩)
    · rw [mapFloats, h1]
      rfl
    · rw [← joinAlpha_map, ← hdata]
      rfl

end Picture
end HueSaturation
