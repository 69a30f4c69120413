import HueSaturation.Proofs.Command.Unchanged

/-!
# Files that are read and written

The command works on colors. What it does not work on comes out of it as it went in: size, depth and
alpha, whatever is done to the colors. And what is only read and written again is kept altogether.

* `Succeeds`              an action on files that ends without an error;
* `Apply.run_succeeds_iff`   what a run that succeeds does;
* `Apply.save_of_ne`      which pictures are refused;
* `Apply.develop_layout`, `layout_of_run`   the edit keeps all but the colors, and so does a run;
* `files_keep_their_samples`   all of it.
-/

namespace HueSaturation

variable {σ α β : Type} {w w' : σ}

/-! ## actions that succeed -/

/-- From `w` the action ends without an error, with the answer `a`, and leaves `w'`. -/
def Succeeds (action : ExceptT (Failure CommandError) (StateM σ) α) (w : σ) (a : α) (w' : σ) :
    Prop :=
  action.run.run w = (.ok a, w')

theorem succeeds_bind {x : ExceptT (Failure CommandError) (StateM σ) α}
    {f : α → ExceptT (Failure CommandError) (StateM σ) β} {b : β} :
    Succeeds (x >>= f) w b w' ↔ ∃ a v, Succeeds x w a v ∧ Succeeds (f a) v b w' := by
  unfold Succeeds
  rw [ExceptT.run_bind, StateT.run_bind]
  obtain ⟨⟨result, v⟩, hr⟩ : ∃ r, r = x.run.run w := ⟨_, rfl⟩
  rw [← hr]
  cases result with
  | error e =>
    constructor
    · intro h
      cases h
    · rintro ⟨a, v', h, -⟩
      cases h
  | ok a =>
    constructor
    · intro h
      exact ⟨a, v, rfl, h⟩
    · rintro ⟨a', v', h1, h2⟩
      obtain ⟨h3, rfl⟩ := Prod.mk.inj h1
      obtain rfl := Except.ok.inj h3
      exact h2

theorem succeeds_ofExcept_bind {x : Except (Failure CommandError) α}
    {f : α → ExceptT (Failure CommandError) (StateM σ) β} {b : β} :
    Succeeds (MonadExcept.ofExcept x >>= f) w b w' ↔ ∃ a, x = .ok a ∧ Succeeds (f a) w b w' := by
  rw [succeeds_bind]
  cases x with
  | error e =>
    constructor
    · rintro ⟨a, v, h, -⟩
      cases h
    · rintro ⟨a, h, -⟩
      cases h
  | ok a =>
    constructor
    · rintro ⟨a', v, h1, h2⟩
      obtain ⟨h3, rfl⟩ := Prod.mk.inj h1
      exact ⟨a', h3, h2⟩
    · rintro ⟨a', h1, h2⟩
      obtain rfl := Except.ok.inj h1
      exact ⟨a, w, rfl, h2⟩

namespace Apply

variable {files : Files (ExceptT (Failure CommandError) (StateM σ))} {fns : Library Float32}
  {c : Apply} {p q source : Picture} {edit : Adjustment × Blend} {b out : Bitmap}

/-- A picture whose alpha does not fit its pixels is refused before anything is done. -/
theorem save_of_ne {a : Array Float32} (h1 : p.alpha = some a) (h2 : a.size ≠ p.colors.area)
    (path : String) : save files path p
      = throw (.refused (.badPicture (.alphaCount a.size p.colors.area))) := by
  have h3 : bitmapOf p = .error (.refused (.badPicture (.alphaCount a.size p.colors.area))) := by
    rw [bitmapOf, Picture.toBitmap, Picture.interleaved_of_ne h1 h2]
    rfl
  rw [save, h3]
  rfl

/-! ## the whole command -/

/-- A run succeeds if and only if it has an edit, reads a bitmap, works on its picture, and writes
the bitmap of that. -/
theorem run_succeeds_iff : Succeeds (c.run fns files) w () w' ↔
    ∃ edit b source p out w₁ w₂, c.prepare = .ok edit ∧ Succeeds (files.read c.input) w b w₁
      ∧ Picture.ofBitmap b = .ok source ∧ c.develop fns edit source = .ok p
      ∧ p.toBitmap = .ok out ∧ Succeeds (files.create c.output) w₁ () w₂
      ∧ Succeeds (files.write c.output out) w₂ () w' := by
  rw [run]
  constructor
  · intro h
    obtain ⟨edit, h1, hread⟩ := succeeds_ofExcept_bind.1 h
    obtain ⟨b, w₁, h2, hsource⟩ := succeeds_bind.1 hread
    obtain ⟨source, h3, hdevelop⟩ := succeeds_ofExcept_bind.1 hsource
    obtain ⟨p, h4, hsave⟩ := succeeds_ofExcept_bind.1 hdevelop
    rw [save] at hsave
    obtain ⟨out, h5, hcreate⟩ := succeeds_ofExcept_bind.1 hsave
    obtain ⟨_, w₂, h6, h7⟩ := succeeds_bind.1 hcreate
    exact ⟨edit, b, source, p, out, w₁, w₂, mapError_eq_ok_iff.1 h1, h2,
      pictureOf_eq_ok_iff.1 h3, h4, bitmapOf_eq_ok_iff.1 h5, h6, h7⟩
  · rintro ⟨edit, b, source, p, out, w₁, w₂, h1, h2, h3, h4, h5, h6, h7⟩
    refine succeeds_ofExcept_bind.2 ⟨edit, mapError_eq_ok_iff.2 h1, ?_⟩
    refine succeeds_bind.2 ⟨b, w₁, h2, ?_⟩
    refine succeeds_ofExcept_bind.2 ⟨source, pictureOf_eq_ok_iff.2 h3, ?_⟩
    refine succeeds_ofExcept_bind.2 ⟨p, h4, ?_⟩
    rw [save_eq h5]
    exact succeeds_bind.2 ⟨(), w₂, h6, h7⟩

theorem fits_of_prepare (h : c.prepare = .ok edit) (size : Size) : edit.2.Fits size := by
  rw [prepare] at h
  split at h
  · cases hbuild : c.request.build with
    | error e =>
      rw [hbuild] at h
      cases h
    | ok a =>
      rw [hbuild] at h
      rw [← Except.ok.inj h]
      exact Blend.fits_none _ _ size
  · cases h

/-- The edit keeps all but the colors, whatever it is and however it is tiled. -/
theorem develop_layout (hs : edit.2.Fits source.colors.toSize)
    (h : c.develop fns edit source = .ok p) :
    p.colors.toSize = source.colors.toSize ∧ p.alpha = source.alpha ∧ p.depth = source.depth := by
  by_cases ht : c.tile = 0
  · simp only [develop, ht, Adjustment.renderTiled, Pipeline.renderTiled_zero _ fns hs] at h
    cases h
  · rw [develop_eq_rendered fns edit ht source hs] at h
    rw [← Except.ok.inj h]
    exact ⟨Pipeline.toSize_rendered _ fns _ _ hs, rfl, rfl⟩

/-- Whatever the edit makes of a bitmap that was read, it can be written. -/
theorem exists_written (fns : Library Float32) {d : Depth} (hs : ∀ size, edit.2.Fits size)
    (ht : c.tile ≠ 0) (hb : b.Whole d) :
    ∃ source p out, Picture.ofBitmap b = .ok source
      ∧ c.develop fns edit source = .ok p ∧ p.toBitmap = .ok out := by
  obtain ⟨source, hread, hagain, -⟩ := Picture.exists_ofBitmap hb
  have hdevelop := develop_eq_rendered fns edit ht source (hs _)
  obtain ⟨h1, h2, -⟩ := develop_layout (hs _) hdevelop
  rcases Picture.toBitmap_cases _ with ⟨x, -, hwrite⟩ | ⟨a, h3, h4, -⟩
  · exact ⟨source, _, _, hread, hdevelop, hwrite⟩
  · -- the alpha that does not fit would be that of `source`, which can be written
    rw [h1] at h4
    rw [Picture.toBitmap, Picture.interleaved_of_ne (h2 ▸ h3) h4] at hagain
    cases hagain

/-- The bitmap that a run writes has the size, the depth and the alpha of the one that it read. -/
theorem layout_of_run (hprepare : c.prepare = .ok edit) (hread : Picture.ofBitmap b = .ok source)
    (hdevelop : c.develop fns edit source = .ok p) (hwrite : p.toBitmap = .ok out) :
    out.size = b.size ∧ b.bits = p.depth.bits ∧ out.Whole p.depth
      ∧ out.alphas p.depth = b.alphas p.depth := by
  obtain ⟨h1, h2, h3⟩ := develop_layout (fits_of_prepare hprepare _) hdevelop
  obtain ⟨h4, h5, h6⟩ := Picture.layout_ofBitmap hread
  obtain ⟨h7, h8, h9⟩ := Picture.layout_toBitmap hwrite
  refine ⟨h7.trans (h1.trans h5), ?_, h8, ?_⟩
  · rw [h3, h4]
  · rw [h9, h2, h6, h3, Picture.quantize_alphas]

end Apply

/-- **Files keep what is not worked on.** A bitmap of colors, with or without alpha, is written as
it was read; and bytes made of samples hold these samples. A picture is written if its alpha, where
it has one, fits its pixels, whatever its numbers are, and what is read of it has its size, its
depth, and alpha if it had one, and is written as the same bitmap again. A run that succeeds has
written a bitmap of the size, the depth and the alpha samples of the one that it read. And alpha
that does not fit the pixels is refused before a file is made. -/
theorem files_keep_their_samples (fns : Library Float32)
    (files : Files (ExceptT (Failure CommandError) (StateM σ))) :
    (∀ (d : Depth) (b : Bitmap), b.Whole d → b.color = .rgb ∨ b.color = .rgba →
      ∃ p, Apply.pictureOf b = .ok p ∧ ∀ path,
        Apply.save files path p = files.create path >>= fun _ => files.write path b)
    ∧ (∀ (d : Depth) (size : Size) (color : ColorType) (vs : Array UInt16), color ≠ .indexed →
      vs.size = size.area * color.channels → (∀ v ∈ vs, v ≤ d.max) →
      Bitmap.Whole d ⟨size, color, d.bits, vs.flatMap d.bytes⟩
        ∧ d.samples (vs.flatMap d.bytes) = vs)
    ∧ (∀ p : Picture, (∀ a, p.alpha = some a → a.size = p.colors.area) →
      ∃ b q, b.Whole p.depth
        ∧ (∀ path, Apply.save files path p = files.create path >>= fun _ => files.write path b)
        ∧ Apply.pictureOf b = .ok q
        ∧ q.colors.toSize = p.colors.toSize ∧ q.depth = p.depth
        ∧ q.alpha.isSome = p.alpha.isSome
        ∧ ∀ path, Apply.save files path q = files.create path >>= fun _ => files.write path b)
    ∧ (∀ (c : Apply) (w w' : σ), Succeeds (c.run fns files) w () w' →
      ∃ d source out w₁ w₂, Succeeds (files.read c.input) w source w₁
        ∧ Succeeds (files.create c.output) w₁ () w₂
        ∧ Succeeds (files.write c.output out) w₂ () w'
        ∧ source.bits = d.bits ∧ out.Whole d ∧ out.size = source.size
        ∧ out.alphas d = source.alphas d)
    ∧ ∀ (p : Picture) (a : Array Float32) (path : String), p.alpha = some a →
      a.size ≠ p.colors.area → Apply.save files path p
        = throw (.refused (.badPicture (.alphaCount a.size p.colors.area))) := by
  refine ⟨?_, ?_, ?_, ?_, fun p a path h1 h2 => Apply.save_of_ne h1 h2 path⟩
  · intro d b hb hcolor
    obtain ⟨p, hread, hwrite, -⟩ := Picture.exists_ofBitmap hb
    rw [hb.expanded_eq hcolor] at hwrite
    exact ⟨p, Apply.pictureOf_eq_ok_iff.2 hread, Apply.save_eq hwrite⟩
  · intro d size color vs hcolor hcount hvs
    refine ⟨⟨rfl, hcolor, ?_⟩, d.samples_bytes hvs⟩
    show (vs.flatMap d.bytes).size = _
    rw [Depth.size_bytes, hcount]
  · intro p halpha
    rcases Picture.toBitmap_cases p with ⟨x, -, hwrite⟩ | ⟨a, h1, h2, -⟩
    swap
    · exact absurd (halpha a h1) h2
    have hread := Picture.ofBitmap_toBitmap hwrite
    have hagain := (Picture.toBitmap_snapped p).trans hwrite
    obtain ⟨-, hwhole, -⟩ := Picture.layout_toBitmap hwrite
    refine ⟨_, p.snapped, hwhole, Apply.save_eq hwrite, Apply.pictureOf_eq_ok_iff.2 hread, rfl,
      rfl, ?_, Apply.save_eq hagain⟩
    exact Option.isSome_map
  · intro c w w' h
    obtain ⟨edit, b, source, p, out, w₁, w₂, h1, h2, h3, h4, h5, h6, h7⟩ :=
      Apply.run_succeeds_iff.1 h
    obtain ⟨h8, h9, h10, h11⟩ := Apply.layout_of_run h1 h3 h4 h5
    exact ⟨p.depth, b, out, w₁, w₂, h2, h6, h7, h9, h10, h8, h11⟩

/-- Two pixels of 16 bits with alpha, read and written; a picture of no numbers; and a run. -/
theorem files_keep_two_pixels :
    let source : Bitmap := ⟨⟨1, 2⟩, .rgba, .sixteen,
      #[0, 1, 0, 2, 156, 64, 0, 7, 255, 255, 1, 0, 0, 0, 128, 1]⟩
    let blank : Picture :=
      ⟨⟨⟨1, 2⟩, #v[.gray (0.0 / 0.0), .gray 2.0]⟩, some #[1.0 / 0.0, 0.3], .eight⟩
    let broken : Picture := { blank with alpha := some #[1.0] }
    let files : Files (ExceptT (Failure CommandError) (StateM (Option Bitmap))) :=
      ⟨fun _ => pure source, fun _ => set (none : Option Bitmap), fun _ b => set (some b)⟩
    let c : Apply :=
      { input := "in.png", output := "out.png", opacity := 0.5, mode := .multiply,
        request := { values := (PerControl.const none).set .saturation (some 40.0) } }
    (∃ p, Apply.pictureOf source = .ok p ∧ ∀ path,
        Apply.save files path p = files.create path >>= fun _ => files.write path source)
      ∧ Depth.sixteen.samples (#[1, 2, 40000, 7].flatMap Depth.sixteen.bytes) = #[1, 2, 40000, 7]
      ∧ (∃ b q, b.Whole .eight ∧ Apply.pictureOf b = .ok q ∧ q.alpha.isSome ∧ ∀ path,
        Apply.save files path q = files.create path >>= fun _ => files.write path b)
      ∧ Apply.save files "out.png" broken = throw (.refused (.badPicture (.alphaCount 1 2)))
      ∧ ∃ out, Succeeds (c.run .binary32 files) none () (some out)
        ∧ out.alphas .sixteen = some #[7, 32769] := by
  intro source blank broken files c
  obtain ⟨hread, hbytes, hpicture, hrun, hrefused⟩ := files_keep_their_samples .binary32 files
  have hwhole : source.Whole .sixteen := ⟨rfl, by decide, rfl⟩
  refine ⟨hread .sixteen source hwhole (.inr rfl), ?_, ?_, ?_, ?_⟩
  · exact (hbytes .sixteen ⟨1, 1⟩ .rgba #[1, 2, 40000, 7] (by decide) rfl
      fun v _ => Depth.le_max_sixteen v).2
  · obtain ⟨b, q, h1, -, h2, -, -, h3, h4⟩ := hpicture blank fun a ha => by
      rw [← Option.some.inj ha]
      rfl
    exact ⟨b, q, h1, h2, h3, h4⟩
  · exact hrefused broken #[1.0] "out.png" rfl (by decide)
  · have hvalues : ∀ k v, c.request.values.get k = some v →
        v.isFinite ∧ c.request.version.isActive k := by
      intro k v h
      cases k with
      | saturation =>
        obtain rfl := Option.some.inj h
        exact ⟨by decide +kernel, by decide⟩
      | _ => cases h
    obtain ⟨a, hprepare, -⟩ := Apply.exists_prepare hvalues (by decide +kernel)
    obtain ⟨p, q, out, hp, hq, hout⟩ := Apply.exists_written (c := c) .binary32
      (Apply.fits_of_prepare hprepare) (by decide) hwhole
    have hsucceeds : Succeeds (c.run .binary32 files) none () (some out) :=
      Apply.run_succeeds_iff.2 ⟨_, source, p, q, out, none, none, hprepare, rfl, hp, hq, hout,
        rfl, rfl⟩
    obtain ⟨d, b, out', w₁, w₂, h1, -, h2, h3, -, -, h4⟩ := hrun c none _ hsucceeds
    obtain rfl : source = b := Except.ok.inj (Prod.mk.inj h1).1
    obtain rfl : out' = out := Option.some.inj (Prod.mk.inj h2).2
    obtain rfl : d = .sixteen := by
      cases d with
      | eight => cases h3
      | sixteen => rfl
    have halphas : source.alphas .sixteen = some #[7, 32769] := by decide +kernel
    exact ⟨out', hsucceeds, h4.trans halphas⟩

end HueSaturation
