import HueSaturation.Proofs.Raster.Grid

/-!
# What is made of the tiles is put together again

The render of one tile is any function of its pixels and its place.

* `Image.Renders`, `FailsWith`   what a render makes of one tile, or its error;
* `Image.exists_stitch`          stitching pieces that agree where they meet;
* `Image.Stitched`               the pixels of every tile are those of its piece; there is one such
                                 image (`Stitched.unique`);
* `Image.renderIn`               the tiles rendered in any order; `exists_renderIn`;
* `Image.renderTiled_of_cut`     a render that cuts one image gives that image back;
* `Image.StitchingLaw`           the law of tiled rendering; `tiled_render_is_stitched`.
-/

namespace HueSaturation

/-! ## traversals that can fail

A traversal succeeds if all its steps do, with their results, and fails with the error of one. -/

theorem exists_mapM_eq_ok {α β ε : Type} {f : α → Except ε β} {l : List α}
    (h : ∀ a ∈ l, ∃ b, f a = .ok b) :
    ∃ bs, l.mapM f = .ok bs ∧ (∀ b ∈ bs, ∃ a ∈ l, f a = .ok b) ∧
      ∀ a ∈ l, ∃ b ∈ bs, f a = .ok b := by
  induction l with
  | nil => exact ⟨[], rfl, fun b hb => by simp at hb, fun a ha => by simp at ha⟩
  | cons a l ih =>
    obtain ⟨b, hb⟩ := h a List.mem_cons_self
    obtain ⟨bs, hbs, h1, h2⟩ := ih fun c hc => h c (List.mem_cons_of_mem _ hc)
    refine ⟨b :: bs, ?_, fun c hc => ?_, fun c hc => ?_⟩
    · rw [List.mapM_cons, hb, hbs]
      rfl
    · rcases List.mem_cons.mp hc with rfl | hc
      · exact ⟨a, List.mem_cons_self, hb⟩
      · obtain ⟨d, hd, hcd⟩ := h1 c hc
        exact ⟨d, List.mem_cons_of_mem _ hd, hcd⟩
    · rcases List.mem_cons.mp hc with rfl | hc
      · exact ⟨b, List.mem_cons_self, hb⟩
      · obtain ⟨d, hd, hcd⟩ := h2 c hc
        exact ⟨d, List.mem_cons_of_mem _ hd, hcd⟩

theorem exists_mapM_eq_error {α β ε : Type} {f : α → Except ε β} {l : List α}
    (h : ∃ a ∈ l, ∃ e, f a = .error e) :
    ∃ e, l.mapM f = .error e ∧ ∃ a ∈ l, f a = .error e := by
  induction l with
  | nil => simp at h
  | cons a l ih =>
    cases ha : f a with
    | error e =>
      refine ⟨e, ?_, a, List.mem_cons_self, ha⟩
      rw [List.mapM_cons, ha]
      rfl
    | ok b =>
      obtain ⟨c, hc, e, he⟩ := h
      have hrest : c ∈ l := (List.mem_cons.mp hc).resolve_left fun hca => by
        rw [hca, ha] at he
        cases he
      obtain ⟨e', he', d, hd, hde⟩ := ih ⟨c, hrest, e, he⟩
      refine ⟨e', ?_, d, List.mem_cons_of_mem _ hd, hde⟩
      rw [List.mapM_cons, ha, he']
      rfl

namespace Image

variable {π : Type}

/-! ## one tile -/

section
variable (source : Image π) (render : Image π → Region → Except (Failure RasterError) (Image π))

/-- `render` makes `piece` of the pixels under a tile, and `piece` has the size of the tile. -/
def Renders (t : Region) (piece : Image π) : Prop :=
  ∃ input : Image π, source.buffer.crop t = .ok input.buffer ∧ render input t = .ok piece ∧
    piece.toSize = t.toSize

/-- `e` is the error of `render` for the pixels under a tile, or that of a piece of another size. -/
def FailsWith (t : Region) (e : Failure RasterError) : Prop :=
  ∃ input : Image π, source.buffer.crop t = .ok input.buffer ∧ (render input t = .error e ∨
    ∃ piece, render input t = .ok piece ∧ piece.toSize ≠ t.toSize ∧
      e = .refused (.wrongTile t piece.toSize))

end

section
variable {source : Image π} {t : Region}
  {render : Image π → Region → Except (Failure RasterError) (Image π)}

theorem Renders.unique {p q : Image π} (hp : source.Renders render t p)
    (hq : source.Renders render t q) : p = q := by
  obtain ⟨input, hinput, hp, -⟩ := hp
  obtain ⟨input', hinput', hq, -⟩ := hq
  obtain rfl := buffer_of_ok (hinput.symm.trans hinput')
  exact Except.ok.inj (hp.symm.trans hq)

theorem Renders.size {piece : Image π} (h : source.Renders render t piece) :
    piece.toSize = t.toSize := by
  obtain ⟨_, -, -, hsize⟩ := h
  exact hsize

theorem renderTile_of_crop {input : Image π} (h : source.buffer.crop t = .ok input.buffer) :
    source.renderTile render t = (render input t >>= fun output =>
      if output.toSize = t.toSize then pure (t, output)
      else throw (.refused (.wrongTile t output.toSize))) := by
  rw [renderTile, h]
  show (input.buffer.image >>= fun input => render input t >>= _) = _
  rw [image_buffer]
  rfl

theorem renderTile_of_renders {piece : Image π} (h : source.Renders render t piece) :
    source.renderTile render t = .ok (t, piece) := by
  obtain ⟨input, hinput, hpiece, hsize⟩ := h
  rw [renderTile_of_crop hinput, hpiece]
  exact if_pos hsize

theorem renderTile_cases (source : Image π)
    (render : Image π → Region → Except (Failure RasterError) (Image π)) {t : Region}
    (h : t.Inside source.toSize) :
    (∃ piece, source.renderTile render t = .ok (t, piece) ∧ source.Renders render t piece) ∨
      ∃ e, source.renderTile render t = .error e ∧ source.FailsWith render t e := by
  obtain ⟨input, hinput, -⟩ := source.exists_crop h
  cases hrender : render input t with
  | error e =>
    refine .inr ⟨e, ?_, input, hinput, .inl hrender⟩
    rw [renderTile_of_crop hinput, hrender]
    rfl
  | ok piece =>
    by_cases hsize : piece.toSize = t.toSize
    · have hpiece : source.Renders render t piece := ⟨input, hinput, hrender, hsize⟩
      exact .inl ⟨piece, renderTile_of_renders hpiece, hpiece⟩
    · refine .inr ⟨_, ?_, input, hinput, .inr ⟨piece, hrender, hsize, rfl⟩⟩
      rw [renderTile_of_crop hinput, hrender]
      exact if_neg hsize

theorem renders_of_renderTile (h : t.Inside source.toSize) {q : Region × Image π}
    (hq : source.renderTile render t = .ok q) : q.1 = t ∧ source.Renders render t q.2 := by
  rcases source.renderTile_cases render h with ⟨piece, hpiece, hr⟩ | ⟨e, he, -⟩
  · cases hpiece.symm.trans hq
    exact ⟨rfl, hr⟩
  · cases he.symm.trans hq

theorem failsWith_of_renderTile (h : t.Inside source.toSize) {e : Failure RasterError}
    (he : source.renderTile render t = .error e) : source.FailsWith render t e := by
  rcases source.renderTile_cases render h with ⟨piece, hpiece, -⟩ | ⟨e', he', hf⟩
  · cases hpiece.symm.trans he
  · cases he'.symm.trans he
    exact hf

end

/-! ## stitching -/

theorem stitch_cons {img piece next : Image π} {tile : Region} {l : List (Region × Image π)}
    (h : img.buffer.paste piece.buffer tile.x tile.y = .ok next.buffer) :
    img.stitch ((tile, piece) :: l) = next.stitch l := by
  rw [stitch, List.foldlM_cons]
  show ((img.buffer.paste piece.buffer tile.x tile.y >>= _) >>= _) = _
  rw [h]
  rfl

/-- **Stitching pieces that agree where they meet.**  If every piece has the size of its tile and
every tile lies inside the image stitched into, then stitching succeeds: the pixels under a tile are
those of its piece, and every other one is the old pixel. -/
theorem exists_stitch (l : List (Region × Image π)) (img : Image π)
    (hsize : ∀ q ∈ l, q.2.toSize = q.1.toSize) (hin : ∀ q ∈ l, q.1.Inside img.toSize)
    (hagree : ∀ p ∈ l, ∀ q ∈ l, ∀ x y, p.1.Contains x y → q.1.Contains x y →
      p.2.at? (x - p.1.x.toNat) (y - p.1.y.toNat) = q.2.at? (x - q.1.x.toNat) (y - q.1.y.toNat)) :
    ∃ out, img.stitch l = .ok out ∧ out.toSize = img.toSize ∧
      (∀ q ∈ l, ∀ x y, q.1.Contains x y →
        out.at? x y = q.2.at? (x - q.1.x.toNat) (y - q.1.y.toNat)) ∧
      (∀ x y, (¬ ∃ q ∈ l, q.1.Contains x y) → out.at? x y = img.at? x y) := by
  induction l generalizing img with
  | nil => exact ⟨img, img.image_buffer, rfl, fun q hq => by simp at hq, fun x y _ => rfl⟩
  | cons q l ih =>
    obtain ⟨tile, piece⟩ := q
    obtain ⟨next, hnext, hns, hnew, hkept⟩ := img.exists_paste (hin _ List.mem_cons_self)
      (hsize _ List.mem_cons_self)
    obtain ⟨out, hout, hos, hpieces, hold⟩ := ih next
      (fun q hq => hsize q (List.mem_cons_of_mem _ hq))
      (fun q hq => hns ▸ hin q (List.mem_cons_of_mem _ hq))
      (fun p hp q hq => hagree p (List.mem_cons_of_mem _ hp) q (List.mem_cons_of_mem _ hq))
    refine ⟨out, ?_, hos.trans hns, fun q hq x y hc => ?_, fun x y h => ?_⟩
    · rw [stitch_cons hnext]
      exact hout
    · rcases List.mem_cons.mp hq with rfl | hq
      · -- a later piece over this one shows the same pixel
        by_cases hrest : ∃ p ∈ l, p.1.Contains x y
        · obtain ⟨p, hp, hpc⟩ := hrest
          rw [hpieces p hp x y hpc]
          exact hagree p (List.mem_cons_of_mem _ hp) _ List.mem_cons_self x y hpc hc
        · rw [hold x y hrest]
          exact hnew x y hc
      · exact hpieces q hq x y hc
    · rw [hold x y fun ⟨q, hq, hc⟩ => h ⟨q, List.mem_cons_of_mem _ hq, hc⟩]
      exact hkept x y fun hc => h ⟨_, List.mem_cons_self, hc⟩

/-! ## all tiles of an image -/

section
variable (source : Image π) (edge : UInt32)
  (render : Image π → Region → Except (Failure RasterError) (Image π))

/-- `out` has the size of the source, and under every tile the pixels of its piece. -/
structure Stitched (out : Image π) : Prop where
  size : out.toSize = source.toSize
  pixel : ∀ t ∈ tileGrid source.toSize edge, ∀ piece, source.Renders render t piece →
    ∀ x y, t.Contains x y → out.at? x y = piece.at? (x - t.x.toNat) (y - t.y.toNat)

/-- The tiles of a list rendered first to last and put together. -/
def renderIn [Channels π] (order : List Region) : Except (Failure RasterError) (Image π) := do
  let rendered ← order.mapM (source.renderTile render)
  (blank source.toSize).stitch rendered

end

section
variable {source : Image π} {edge : UInt32}
  {render : Image π → Region → Except (Failure RasterError) (Image π)}

theorem Stitched.unique (he : edge ≠ 0) {a b : Image π}
    (hall : ∀ t ∈ tileGrid source.toSize edge, ∃ piece, source.Renders render t piece)
    (ha : source.Stitched edge render a) (hb : source.Stitched edge render b) : a = b := by
  refine ext_at? (ha.size.trans hb.size.symm) fun x y hx hy => ?_
  rw [ha.size] at hx hy
  obtain ⟨t, ht, hc⟩ := exists_mem_grid he hx hy
  obtain ⟨piece, hpiece⟩ := hall t ht
  rw [ha.pixel t ht piece hpiece x y hc, hb.pixel t ht piece hpiece x y hc]

/-- Pieces of all tiles, in any order, make an image of the source's size what the tiles say. -/
theorem exists_stitch_of_grid (he : edge ≠ 0) {l : List (Region × Image π)}
    (hl : ∀ q ∈ l, q.1 ∈ tileGrid source.toSize edge ∧ source.Renders render q.1 q.2)
    (hcover : ∀ t ∈ tileGrid source.toSize edge, ∃ q ∈ l, q.1 = t) {init : Image π}
    (hs : init.toSize = source.toSize) :
    ∃ out, init.stitch l = .ok out ∧ source.Stitched edge render out := by
  have hagree : ∀ p ∈ l, ∀ q ∈ l, ∀ x y, p.1.Contains x y → q.1.Contains x y →
      p.2.at? (x - p.1.x.toNat) (y - p.1.y.toNat)
        = q.2.at? (x - q.1.x.toNat) (y - q.1.y.toNat) := by
    intro p hp q hq x y hpc hqc
    have htile : p.1 = q.1 := eq_of_mem_grid he (hl p hp).1 (hl q hq).1 hpc hqc
    have hpiece : p.2 = q.2 := Renders.unique (hl p hp).2 (htile ▸ (hl q hq).2)
    rw [htile, hpiece]
  obtain ⟨out, hout, hos, hpieces, -⟩ := exists_stitch l init
    (fun q hq => (hl q hq).2.size) (fun q hq => hs ▸ inside_of_mem_grid he (hl q hq).1) hagree
  refine ⟨out, hout, hos.trans hs, fun t ht piece hpiece x y hc => ?_⟩
  obtain ⟨q, hq, rfl⟩ := hcover t ht
  rw [hpiece.unique (hl q hq).2]
  exact hpieces q hq x y hc

/-- What the steps of a traversal of the tiles give is put together, over any image. -/
theorem exists_stitch_of_mapM (he : edge ≠ 0) {order : List Region}
    (hperm : order.Perm (tileGrid source.toSize edge))
    (hall : ∀ t ∈ tileGrid source.toSize edge, ∃ piece, source.Renders render t piece) :
    ∃ rendered, order.mapM (source.renderTile render) = .ok rendered ∧
      ∀ l, l.Perm rendered → ∀ init : Image π, init.toSize = source.toSize →
        ∃ out, init.stitch l = .ok out ∧ source.Stitched edge render out := by
  have hok : ∀ t ∈ order, ∃ q, source.renderTile render t = .ok q := by
    intro t ht
    obtain ⟨piece, hpiece⟩ := hall t (hperm.mem_iff.mp ht)
    exact ⟨_, renderTile_of_renders hpiece⟩
  obtain ⟨rendered, hrendered, h1, h2⟩ := exists_mapM_eq_ok hok
  refine ⟨rendered, hrendered, fun l hl init hs => exists_stitch_of_grid he (fun q hq => ?_)
    (fun t ht => ?_) hs⟩
  · obtain ⟨t, ht, hq⟩ := h1 q (hl.mem_iff.mp hq)
    have htg := hperm.mem_iff.mp ht
    obtain ⟨hqt, hr⟩ := renders_of_renderTile (inside_of_mem_grid he htg) hq
    rw [hqt]
    exact ⟨htg, hr⟩
  · obtain ⟨q, hq, htq⟩ := h2 t (hperm.mem_iff.mpr ht)
    exact ⟨q, hl.mem_iff.mpr hq, (renders_of_renderTile (inside_of_mem_grid he ht) htq).1⟩

theorem exists_renderIn [Channels π] (he : edge ≠ 0) {order : List Region}
    (hperm : order.Perm (tileGrid source.toSize edge))
    (hall : ∀ t ∈ tileGrid source.toSize edge, ∃ piece, source.Renders render t piece) :
    ∃ out, source.renderIn render order = .ok out ∧ source.Stitched edge render out := by
  obtain ⟨rendered, hrendered, hstitch⟩ := exists_stitch_of_mapM he hperm hall
  obtain ⟨out, hout, hs⟩ := hstitch rendered (.refl _) (blank source.toSize) rfl
  refine ⟨out, ?_, hs⟩
  rw [renderIn, hrendered]
  exact hout

theorem exists_renderIn_error [Channels π] (he : edge ≠ 0) {order : List Region}
    (hperm : order.Perm (tileGrid source.toSize edge))
    (hsome : ¬ ∀ t ∈ tileGrid source.toSize edge, ∃ piece, source.Renders render t piece) :
    ∃ e, source.renderIn render order = .error e ∧
      ∃ t ∈ tileGrid source.toSize edge, source.FailsWith render t e := by
  simp only [Classical.not_forall] at hsome
  obtain ⟨t, ht, hno⟩ := hsome
  have hfail : ∃ e, source.renderTile render t = .error e := by
    rcases source.renderTile_cases render (inside_of_mem_grid he ht) with
      ⟨piece, -, hr⟩ | ⟨e, hfails, -⟩
    · exact absurd ⟨piece, hr⟩ hno
    · exact ⟨e, hfails⟩
  obtain ⟨e, hmap, s, hs, hse⟩ := exists_mapM_eq_error ⟨t, hperm.mem_iff.mpr ht, hfail⟩
  have hsg := hperm.mem_iff.mp hs
  refine ⟨e, ?_, s, hsg, failsWith_of_renderTile (inside_of_mem_grid he hsg) hse⟩
  rw [renderIn, hmap]
  rfl

theorem renderIn_eq_ok_iff [Channels π] (he : edge ≠ 0) {order : List Region}
    (hperm : order.Perm (tileGrid source.toSize edge)) {out : Image π} :
    source.renderIn render order = .ok out ↔
      (∀ t ∈ tileGrid source.toSize edge, ∃ piece, source.Renders render t piece) ∧
        source.Stitched edge render out := by
  constructor
  · intro h
    by_cases hall : ∀ t ∈ tileGrid source.toSize edge, ∃ piece, source.Renders render t piece
    · obtain ⟨out', hout', hs⟩ := exists_renderIn he hperm hall
      cases hout'.symm.trans h
      exact ⟨hall, hs⟩
    · obtain ⟨e, he', -⟩ := exists_renderIn_error he hperm hall
      cases he'.symm.trans h
  · rintro ⟨hall, hs⟩
    obtain ⟨out', hout', hs'⟩ := exists_renderIn he hperm hall
    rw [hout', hs'.unique he hall hs]

theorem failsWith_of_renderIn [Channels π] (he : edge ≠ 0) {order : List Region}
    (hperm : order.Perm (tileGrid source.toSize edge)) {e : Failure RasterError}
    (h : source.renderIn render order = .error e) :
    ∃ t ∈ tileGrid source.toSize edge, source.FailsWith render t e := by
  by_cases hall : ∀ t ∈ tileGrid source.toSize edge, ∃ piece, source.Renders render t piece
  · obtain ⟨out, hout, -⟩ := exists_renderIn he hperm hall
    cases hout.symm.trans h
  · obtain ⟨e', he', hfails⟩ := exists_renderIn_error he hperm hall
    cases he'.symm.trans h
    exact hfails

theorem renderTiled_eq_renderIn [Channels π] (source : Image π) (he : edge ≠ 0)
    (render : Image π → Region → Except (Failure RasterError) (Image π)) :
    source.renderTiled edge render = source.renderIn render (tileGrid source.toSize edge) := by
  rw [renderTiled, tiles_eq_grid _ he]
  rfl

theorem renderTiled_eq_ok_iff [Channels π] (he : edge ≠ 0) {out : Image π} :
    source.renderTiled edge render = .ok out ↔
      (∀ t ∈ tileGrid source.toSize edge, ∃ piece, source.Renders render t piece) ∧
        source.Stitched edge render out := by
  rw [renderTiled_eq_renderIn source he]
  exact renderIn_eq_ok_iff he (.refl _)

/-- **Rendering by cutting.**  If `render` makes of every tile of `source` the cut of one image
`whole` of the same size, then all tiles together are that image. -/
theorem renderTiled_of_cut [Channels π] {whole : Image π} (he : edge ≠ 0)
    (hs : whole.toSize = source.toSize)
    (hr : ∀ t (h : t.Inside source.toSize),
      render (source.cut t h) t = .ok (whole.cut t (hs.symm ▸ h))) :
    source.renderTiled edge render = .ok whole := by
  have hpiece : ∀ t (h : t.Inside source.toSize),
      source.Renders render t (whole.cut t (hs.symm ▸ h)) :=
    fun t h => ⟨_, source.crop_eq_cut h, hr t h, rfl⟩
  have hall : ∀ t ∈ tileGrid source.toSize edge, ∃ piece, source.Renders render t piece :=
    fun t ht => ⟨_, hpiece t (inside_of_mem_grid he ht)⟩
  have hwhole : source.Stitched edge render whole := by
    refine ⟨hs, fun t ht piece h x y hc => ?_⟩
    rw [h.unique (hpiece t (inside_of_mem_grid he ht))]
    exact (whole.at?_cut_of_contains t _ hc).symm
  exact (renderTiled_eq_ok_iff he).mpr ⟨hall, hwhole⟩

end

/-! ## the law of tiled rendering -/

variable [Channels π]

/-- What a tiled render has to do with the renders of the tiles in `grid`. -/
structure StitchingLaw (source : Image π) (edge : UInt32)
    (render : Image π → Region → Except (Failure RasterError) (Image π))
    (grid : List Region) : Prop where
  /-- every tile can be cropped -/
  crop_ok : ∀ t ∈ grid, ∃ input : Image π, source.buffer.crop t = .ok input.buffer ∧
    input.toSize = t.toSize
  /-- a piece of the size of its tile can be pasted there, whatever was pasted before -/
  paste_ok : ∀ t ∈ grid, ∀ img piece : Image π, img.toSize = source.toSize →
    piece.toSize = t.toSize →
      ∃ next : Image π, img.buffer.paste piece.buffer t.x t.y = .ok next.buffer ∧
        next.toSize = source.toSize
  /-- the image is rendered exactly if every tile is, in its own size -/
  ok_iff : (∃ out, source.renderTiled edge render = .ok out) ↔
    ∀ t ∈ grid, ∃ piece, source.Renders render t piece
  /-- the image rendered has the size of the source -/
  size : ∀ out, source.renderTiled edge render = .ok out → out.toSize = source.toSize
  /-- each of its pixels is that of the piece of the one tile that it lies in -/
  pixel : ∀ out, source.renderTiled edge render = .ok out → ∀ x y : UInt32, x < source.width →
    y < source.height → ∃ t ∈ grid, t.Contains x.toNat y.toNat ∧
      (∀ s ∈ grid, s.Contains x.toNat y.toNat → s = t) ∧
      ∃ piece, source.Renders render t piece ∧
        out.buffer.pixel? x y = piece.buffer.pixel? (x - t.x) (y - t.y)
  /-- the pieces may be pasted in any order, over any image of the size of the source -/
  pieces_in_any_order : ∀ out, source.renderTiled edge render = .ok out →
    ∃ rendered, grid.mapM (source.renderTile render) = .ok rendered ∧
      ∀ pieces, pieces.Perm rendered → ∀ init : Image π, init.toSize = source.toSize →
        init.stitch pieces = .ok out
  /-- a render that fails has the error of a tile -/
  error_of_tile : ∀ e, source.renderTiled edge render = .error e →
    ∃ t ∈ grid, source.FailsWith render t e
  /-- the tiles may be rendered in any order, but that the error may be that of another tile -/
  tiles_in_any_order : ∀ order, order.Perm grid →
    (∀ out, source.renderIn render order = .ok out ↔ source.renderTiled edge render = .ok out) ∧
      ∀ e, source.renderIn render order = .error e → ∃ t ∈ grid, source.FailsWith render t e

theorem toNat_sub_of_le {a b : UInt32} (h : b.toNat ≤ a.toNat) :
    (a - b).toNat = a.toNat - b.toNat :=
  UInt32.toNat_sub_of_le _ _ (UInt32.le_iff_toNat_le.mpr h)

theorem stitchingLaw_grid (source : Image π) {edge : UInt32} (he : edge ≠ 0)
    (render : Image π → Region → Except (Failure RasterError) (Image π)) :
    StitchingLaw source edge render (tileGrid source.toSize edge) where
  crop_ok t ht := by
    obtain ⟨input, hinput, hsize, -⟩ := source.exists_crop (inside_of_mem_grid he ht)
    exact ⟨input, hinput, hsize⟩
  paste_ok t ht img piece hs hpiece := by
    obtain ⟨next, hnext, hns, -⟩ := img.exists_paste (hs ▸ inside_of_mem_grid he ht) hpiece
    exact ⟨next, hnext, hns.trans hs⟩
  ok_iff := by
    refine ⟨fun ⟨out, hout⟩ => ((renderTiled_eq_ok_iff he).mp hout).1, fun hall => ?_⟩
    rw [renderTiled_eq_renderIn source he]
    obtain ⟨out, hout, -⟩ := exists_renderIn he (.refl _) hall
    exact ⟨out, hout⟩
  size out hout := ((renderTiled_eq_ok_iff he).mp hout).2.size
  pixel out hout x y hx hy := by
    obtain ⟨hall, hstitched⟩ := (renderTiled_eq_ok_iff he).mp hout
    have hcover : ∃ t ∈ tileGrid source.toSize edge, t.Contains x.toNat y.toNat :=
      exists_mem_grid he hx hy
    obtain ⟨t, ht, hc⟩ := hcover
    obtain ⟨piece, hpiece⟩ := hall t ht
    refine ⟨t, ht, hc, fun s hs hsc => eq_of_mem_grid he hs ht hsc hc, piece, hpiece, ?_⟩
    rw [Image.pixel?_buffer, Image.pixel?_buffer, toNat_sub_of_le hc.1.1, toNat_sub_of_le hc.2.1]
    exact hstitched.pixel t ht piece hpiece _ _ hc
  pieces_in_any_order out hout := by
    obtain ⟨hall, hstitched⟩ := (renderTiled_eq_ok_iff he).mp hout
    obtain ⟨rendered, hrendered, hstitch⟩ := exists_stitch_of_mapM he (.refl _) hall
    refine ⟨rendered, hrendered, fun pieces hperm init hs => ?_⟩
    obtain ⟨out', hout', hs'⟩ := hstitch pieces hperm init hs
    rw [hout', hs'.unique he hall hstitched]
  error_of_tile e h := by
    rw [renderTiled_eq_renderIn source he] at h
    exact failsWith_of_renderIn he (.refl _) h
  tiles_in_any_order order hperm := by
    refine ⟨fun out => ?_, fun e h => failsWith_of_renderIn he hperm h⟩
    rw [renderIn_eq_ok_iff he hperm, renderTiled_eq_ok_iff he]

end Image

/-- **A tiled render is the renders of the tiles put together**, for every function of a tile. -/
theorem tiled_render_is_stitched {π : Type} [Channels π] (source : Image π) (edge : UInt32)
    (he : edge ≠ 0) (render : Image π → Region → Except (Failure RasterError) (Image π)) :
    ∃ grid, tiles source.toSize edge = .ok grid ∧ Image.StitchingLaw source edge render grid :=
  ⟨_, tiles_eq_grid _ he, source.stitchingLaw_grid he render⟩

/-- Three columns and two rows by tiles of two, each rendered as it is. -/
theorem tiled_render_of_three_columns : (2 : UInt32) ≠ 0 ∧ ∃ out,
    (⟨⟨3, 2⟩, #v[0.0, 0.125, 0.25, 0.5, 0.75, 1.0]⟩ : Mask).renderTiled 2 (fun tile _ => .ok tile)
      = .ok out ∧ out.toSize = ⟨3, 2⟩ := by
  obtain ⟨grid, -, law⟩ := tiled_render_is_stitched
    (⟨⟨3, 2⟩, #v[0.0, 0.125, 0.25, 0.5, 0.75, 1.0]⟩ : Mask) 2 (by decide) fun tile _ => .ok tile
  obtain ⟨out, hout⟩ := law.ok_iff.mpr fun t ht => by
    obtain ⟨input, hinput, hsize⟩ := law.crop_ok t ht
    exact ⟨input, input, hinput, rfl, hsize⟩
  exact ⟨by decide, out, hout, law.size out hout⟩

end HueSaturation
