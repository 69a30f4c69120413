import HueSaturation.Command.Apply
import HueSaturation.Proofs.Blend.Paths
import HueSaturation.Proofs.Command.Given
import HueSaturation.Proofs.Edit.Replay
import HueSaturation.Proofs.Edit.Tiled
import HueSaturation.Proofs.Png.Written

/-!
# Edits that leave a file as it is

An edit without effect gives back the samples of its input, whatever its size, layout and depth:
values that round to zero leave every control at rest, and at opacity zero no value shows.

* `pixel_self`          a front that is the back, at any opacity;
* `Panel.setAll_zero`   a batch of values that round to zero;
* `Request.exists_build`   the values of a command line are accepted;
* `Apply.Idle`          the command has no effect;
* `Apply.save_eq`       what is written of a picture;
* `idle_keeps_samples`  such a command writes the samples that it reads.
-/

namespace HueSaturation

open Binary32 (val InUnit)

/-! ## the front that is the back -/

theorem pixel_self {p : Rgb Float32} (hp : p.InUnit) {amount : Float32} (ha : amount.isFinite) :
    (Blend.pixel .normal amount p p).Same 0 p := by
  have hmix {b : Float32} (hb : InUnit b) : Binary32.Same 0 (mix b b amount) b := by
    obtain ⟨h1, h2⟩ := mix_self hb.1 ha
    exact ⟨h1, hb.1, h2, h2 ▸ hb.same.le⟩
  exact ⟨hmix hp.r, hmix hp.g, hmix hp.b⟩

/-- Without a mask every pixel is composed by the same amount. -/
theorem Blend.result_map {s : Blend} (hm : s.mask = none) (f : Rgb Float32 → Rgb Float32)
    (back : RgbImage) (hs : s.Fits back.toSize) :
    s.result back (back.map f) (Image.toSize_map f back) hs
      = back.map fun p => pixel s.mode s.effectiveOpacity p (f p) := by
  have hamounts : s.amounts back.toSize = Image.fill back.toSize s.effectiveOpacity := by
    rw [amounts, hm]
  refine Image.ext_at? rfl fun x y hx hy => ?_
  rw [at?_result s back _ (Image.toSize_map f back) hs hx hy, hamounts,
    Image.at?_fill back.toSize _ hx hy, Image.at?_map, Image.at?_map]
  cases back.at? x y <;> rfl

theorem Blend.isTransparent_of_zero {s : Blend} (h1 : s.opacity == 0.0) : s.isTransparent := by
  rw [isTransparent, effectiveOpacity]
  rcases Binary32.zero_of_beq h1 with h | h
  · rw [h]
    decide +kernel
  · rw [h]
    decide +kernel

namespace Pipeline

variable {fns : Library Float32}

theorem frontPixel_neutral (p : Rgb Float32) : (ofSettings fns .neutral).frontPixel fns p = p := by
  refine frontPixel_of_isIdentity ?_ fns p
  have h1 : (ofSettings fns .neutral).band.isIdentity = true := by
    have h2 : (ofSettings fns .neutral).matrix = .identity := rfl
    rw [band, h2]
    decide +kernel
  rw [isIdentity, h1, vibrance_of_zero rfl, hue_of_zero rfl]
  rfl

end Pipeline

/-! ## the edit of a command line -/

theorem Panel.reply_zero (version : Version) (k : Control) {v : Float32} (hv : v.isFinite)
    (h1 : Binary32.round v == 0.0) :
    ((Adjustment.registered version).reply k 0 v).1 = 0 := by
  rw [reply, Adjustment.sliders_registered]
  split
  · rfl
  next slider hslider =>
  obtain rfl : k.slider = slider := by
    split at hslider
    · exact Option.some.inj hslider
    · cases hslider
  obtain ⟨r, n, h2, h3, h4, -, h5⟩ := Slider.round?_eq k.slider_sound hv
  obtain ⟨h6, h7⟩ := Binary32.finite_round hv
  have haway : Binary32.away (val v) = 0 := by
    rw [Binary32.beq_iff h6 rfl, h7, Binary32.val_zero] at h1
    exact_mod_cast h1
  have hn : n = 0 := by
    obtain ⟨h8, h9⟩ := k.slider_holds_zero
    rw [h5, haway, min_eq_right h9, max_eq_right h8]
  have hr : r == (Scalar.ofInt (0 : Int16).toInt : Float32) := by
    refine (Binary32.beq_iff h3 rfl).2 ?_
    rw [h4, hn]
    rfl
  rw [h2]
  simp only [if_pos hr]

theorem Panel.setAll_zero (version : Version) {entries : List (Control × Float32)}
    (h1 : ∀ e ∈ entries, e.2.isFinite ∧ Binary32.round e.2 == 0.0) :
    ((Adjustment.registered version).setAll entries).panel.current = .neutral := by
  have hvalid := Adjustment.valid_registered version
  have hpanel := Adjustment.current_registered version
  obtain ⟨next, updates, h2, h3⟩ := setAll_eq hvalid.toFormed fun e he => (h1 e he).1
  have hold : ∀ k, (Adjustment.registered version).current.values.get k = 0 := by
    intro k
    rw [hpanel]
    exact PerControl.get_const 0 k
  have hzero : ∀ k, next.values.get k = 0 := by
    intro k
    rw [(Prod.mk.inj (h2 k)).1]
    cases hlast : (lastValues entries).get k with
    | none => exact hold k
    | some v =>
      have hv : v.isFinite ∧ Binary32.round v == 0.0 :=
        forall_lastValues (P := fun v => v.isFinite ∧ Binary32.round v == 0.0) h1 hlast
      simp only [hold]
      exact reply_zero version k hv.1 hv.2
  have hnext : next = .neutral := by
    cases next
    exact congrArg Settings.mk (PerControl.ext_get fun k => by rw [hzero, PerControl.get_const])
  rw [h3, if_pos (hnext.trans hpanel.symm)]
  exact hpanel

namespace Request

variable {r : Request}

/-- The values are accepted, and with values that round to zero every control stays at rest. -/
theorem exists_build
    (h1 : ∀ k v, r.values.get k = some v → v.isFinite ∧ r.version.isActive k) :
    ∃ a, r.build = .ok a ∧ a.kept = none
      ∧ ((∀ k v, r.values.get k = some v → Binary32.round v == 0.0) →
        a.panel.current = .neutral) := by
  have hgiven : ∀ e ∈ r.given, e.2.isFinite := fun e he => (h1 _ _ (mem_given.1 he)).1
  have hvalid := Adjustment.valid_registered r.version
  obtain ⟨answer, hanswer⟩ := Panel.setAll_ok hvalid.toFormed hgiven
  refine ⟨_, build_of_ok (missing_eq_nil fun k v h => (h1 k v h).2) hanswer, rfl, fun h2 => ?_⟩
  exact Panel.setAll_zero r.version fun e he => ⟨hgiven e he, h2 _ _ (mem_given.1 he)⟩

end Request

/-! ## the command -/

namespace Apply

/-- The command has no effect: its values round to zero and the mode is the normal one, or nothing
of the front shows. -/
def Idle (c : Apply) : Prop :=
  ((∀ k v, c.request.values.get k = some v → Binary32.round v == 0.0) ∧ c.mode = .normal
      ∧ Scalar.within 0.0 1.0 c.opacity)
    ∨ c.opacity == 0.0

variable {fns : Library Float32} {c : Apply}

theorem within_of_idle (h1 : c.Idle) : Scalar.within 0.0 1.0 c.opacity := by
  rcases h1 with ⟨-, -, h2⟩ | h2
  · exact h2
  · rcases Binary32.zero_of_beq h2 with h | h
    · rw [h]
      decide +kernel
    · rw [h]
      decide +kernel

/-- What an edit makes of a picture, however it is tiled. -/
theorem develop_eq_rendered (fns : Library Float32) (edit : Adjustment × Blend) (ht : c.tile ≠ 0)
    (source : Picture) (hs : edit.2.Fits source.colors.toSize) :
    c.develop fns edit source = .ok { source with
      colors := (edit.1.pipeline fns).1.pipeline.rendered fns source.colors edit.2 hs } := by
  have hrender : (edit.1.renderTiled fns .reference source.colors edit.2 c.tile).1
      = .ok ((edit.1.pipeline fns).1.pipeline.rendered fns source.colors edit.2 hs) :=
    Pipeline.renderTiled_eq_rendered _ fns hs ht
  rw [develop]
  simp only [hrender]
  rfl

theorem develop_eq {a : Adjustment} {s : Blend} (hk : a.kept = none)
    (ht : c.tile ≠ 0) (source : Picture) (hs : s.Fits source.colors.toSize) :
    c.develop fns (a, s) source = .ok { source with
      colors := (Pipeline.ofSettings fns a.panel.current).rendered fns source.colors s hs } := by
  have hpipeline : (a.pipeline fns).1.pipeline = .ofSettings fns a.panel.current := by
    rcases Adjustment.pipeline_cases fns a with ⟨built, h, -, -⟩ | ⟨-, -, h⟩
    · rw [hk] at h
      cases h
    · rw [h]
  have hrendered := develop_eq_rendered fns (a, s) ht source hs
  rw [hpipeline] at hrendered
  exact hrendered

/-- The edit of a command whose values are for controls of its version. -/
theorem exists_prepare
    (h1 : ∀ k v, c.request.values.get k = some v → v.isFinite ∧ c.request.version.isActive k)
    (h2 : Scalar.within 0.0 1.0 c.opacity) :
    ∃ a, c.prepare = .ok (a, { opacity := c.opacity, mode := c.mode }) ∧ a.kept = none
      ∧ ((∀ k v, c.request.values.get k = some v → Binary32.round v == 0.0) →
        a.panel.current = .neutral) := by
  obtain ⟨a, hbuild, hkept, hrest⟩ := Request.exists_build h1
  refine ⟨a, ?_, hkept, hrest⟩
  rw [prepare, if_pos h2, hbuild]
  rfl

/-- An idle command keeps the values of all colors. -/
theorem exists_develop (fns : Library Float32)
    (h1 : ∀ k v, c.request.values.get k = some v → v.isFinite ∧ c.request.version.isActive k)
    (h2 : c.tile ≠ 0) (h3 : c.Idle) :
    ∃ edit, c.prepare = .ok edit ∧ ∃ g : Rgb Float32 → Rgb Float32,
      (∀ p, p.InUnit → (g p).Same 0 p)
        ∧ ∀ source, c.develop fns edit source
          = .ok { source with colors := source.colors.map g } := by
  obtain ⟨a, hprepare, hkept, hrest⟩ := exists_prepare h1 (within_of_idle h3)
  obtain ⟨s, hs⟩ : ∃ s : Blend, s = { opacity := c.opacity, mode := c.mode } := ⟨_, rfl⟩
  have hmask : s.mask = none := by rw [hs]
  have hfits : ∀ size, s.Fits size := fun size mask h => by
    rw [hmask] at h
    cases h
  rw [← hs] at hprepare
  refine ⟨(a, s), hprepare, ?_⟩
  by_cases htransparent : s.isTransparent
  · refine ⟨id, fun p hp => hp.same, fun source => ?_⟩
    rw [develop_eq hkept h2 source (hfits _), Pipeline.rendered, Host.composed,
      if_pos htransparent]
    rw [Image.map_of_forall_eq (f := id) fun _ => rfl]
  · rcases h3 with ⟨hzero, hmode, -⟩ | hopacity
    swap
    · refine absurd (Blend.isTransparent_of_zero ?_) htransparent
      rw [hs]
      exact hopacity
    have hamount : s.effectiveOpacity.isFinite := (Binary32.inUnit_unit s.opacity).1
    refine ⟨fun p => Blend.pixel .normal s.effectiveOpacity p p, fun p hp => pixel_self hp hamount,
      fun source => ?_⟩
    have hfront : (Pipeline.ofSettings fns a.panel.current).frontPixel fns = id := by
      rw [hrest hzero]
      exact funext Pipeline.frontPixel_neutral
    have hresult := Blend.result_map hmask id source.colors (hfits _)
    rw [develop_eq hkept h2 source (hfits _), Pipeline.rendered, Host.composed,
      if_neg htransparent]
    simp only [hfront, hresult]
    rw [hs, hmode]
    rfl

/-! ## reading and writing -/

section
variable {m : Type → Type} [Monad m] [LawfulMonad m] [MonadExceptOf (Failure CommandError) m]
  {files : Files m} {p : Picture} {b : Bitmap}

theorem mapError_eq_ok_iff {ε δ α : Type} {f : ε → δ} {x : Except ε α} {a : α} :
    x.mapError f = .ok a ↔ x = .ok a := by
  cases x with
  | error e => simp [Except.mapError]
  | ok b => simp [Except.mapError]

theorem pictureOf_eq_ok_iff : pictureOf b = .ok p ↔ Picture.ofBitmap b = .ok p :=
  mapError_eq_ok_iff

theorem bitmapOf_eq_ok_iff : bitmapOf p = .ok b ↔ p.toBitmap = .ok b :=
  mapError_eq_ok_iff

theorem save_eq (h : p.toBitmap = .ok b) (path : String) :
    save files path p = files.create path >>= fun _ => files.write path b := by
  rw [save, bitmapOf_eq_ok_iff.2 h]
  exact pure_bind _ _

end
end Apply

/-- **A command without effect keeps every sample.** Its values are finite and for controls of its
version, and its tiles are not empty. Then it is built, and it makes of every bitmap with all of its
samples the bitmap itself, with gray as three equal channels, in the same size and depth, with alpha
where it had alpha. This bitmap is what the whole command writes to its output. -/
theorem idle_keeps_samples (fns : Library Float32) {m : Type → Type} [Monad m] [LawfulMonad m]
    [MonadExceptOf (Failure CommandError) m] (files : Files m) (c : Apply)
    (h1 : ∀ k v, c.request.values.get k = some v → v.isFinite ∧ c.request.version.isActive k)
    (h2 : c.tile ≠ 0) (h3 : c.Idle) :
    (∃ edit, c.prepare = .ok edit ∧ ∀ (d : Depth) (b : Bitmap), b.Whole d →
        ∃ source p, Apply.pictureOf b = .ok source ∧ c.develop fns edit source = .ok p
          ∧ Apply.bitmapOf p = .ok (b.expanded d))
      ∧ (∃ finish : Bitmap → m Unit, c.run fns files = files.read c.input >>= finish
        ∧ ∀ (d : Depth) (b : Bitmap), b.Whole d →
          finish b = files.create c.output >>= fun _ => files.write c.output (b.expanded d))
      ∧ ∀ (d : Depth) (b : Bitmap), b.Whole d →
        (b.expanded d).size = b.size ∧ (b.expanded d).bits = b.bits
          ∧ (b.expanded d).color.hasAlpha = b.color.hasAlpha
          ∧ d.samples (b.expanded d).bytes = b.color.expandSamples (d.samples b.bytes)
          ∧ (b.color = .rgb ∨ b.color = .rgba → b.expanded d = b) := by
  obtain ⟨edit, hprepare, g, hg, hdevelop⟩ := Apply.exists_develop fns h1 h2 h3
  have hkept : ∀ (d : Depth) (b : Bitmap), b.Whole d → ∃ source p, Apply.pictureOf b = .ok source
      ∧ c.develop fns edit source = .ok p ∧ Apply.bitmapOf p = .ok (b.expanded d) := by
    intro d b hb
    obtain ⟨source, hread, hwritten, hsnapped⟩ := Picture.exists_ofBitmap hb
    refine ⟨source, { source with colors := source.colors.map g },
      Apply.pictureOf_eq_ok_iff.2 hread, hdevelop source, Apply.bitmapOf_eq_ok_iff.2 ?_⟩
    rw [Picture.toBitmap_recolored hsnapped hg, hwritten]
  refine ⟨⟨edit, hprepare, hkept⟩, ⟨fun b => do
    let source ← MonadExcept.ofExcept (Apply.pictureOf b)
    Apply.save files c.output (← MonadExcept.ofExcept (c.develop fns edit source)), ?_, ?_⟩, ?_⟩
  · rw [Apply.run, hprepare]
    exact pure_bind _ _
  · intro d b hb
    obtain ⟨source, p, hsource, hp, hbitmap⟩ := hkept d b hb
    simp only [hsource]
    refine (pure_bind _ _).trans ?_
    rw [hp]
    exact (pure_bind _ _).trans (Apply.save_eq (Apply.bitmapOf_eq_ok_iff.1 hbitmap) c.output)
  · intro d b hb
    refine ⟨rfl, rfl, ?_, b.samples_expanded d, hb.expanded_eq⟩
    show b.color.expanded.hasAlpha = b.color.hasAlpha
    cases b.color <;> rfl

/-- Two pixels of 16 bits, gray with alpha. -/
theorem idle_keeps_gray_pixels :
    let source : Bitmap := ⟨⟨2, 1⟩, .grayAlpha, .sixteen, #[156, 64, 0, 7, 1, 2, 255, 255]⟩
    let output : Bitmap := ⟨⟨2, 1⟩, .rgba, .sixteen,
      #[156, 64, 156, 64, 156, 64, 0, 7, 1, 2, 1, 2, 1, 2, 255, 255]⟩
    let files : Files (StateT (Option Bitmap) (Except (Failure CommandError))) :=
      ⟨fun _ => pure source, fun _ => set (none : Option Bitmap), fun _ b => set (some b)⟩
    let c : Apply :=
      { input := "in.png", output := "out.png", opacity := 0.3, tile := 2,
        request := { values := (PerControl.const none).set .saturation (some 0.4) } }
    (c.run .binary32 files).run none = .ok ((), some output) := by
  intro source output files c
  have hvalues : ∀ k v, c.request.values.get k = some v →
      k = .saturation ∧ v = 0.4 := by
    intro k v h
    cases k with
    | saturation => exact ⟨rfl, (Option.some.inj h).symm⟩
    | _ => cases h
  have hidle : c.Idle := by
    refine .inl ⟨?_, rfl, by decide +kernel⟩
    intro k v h
    obtain ⟨-, rfl⟩ := hvalues k v h
    decide +kernel
  have hactive : ∀ k v, c.request.values.get k = some v →
      v.isFinite ∧ c.request.version.isActive k := by
    intro k v h
    obtain ⟨rfl, rfl⟩ := hvalues k v h
    exact ⟨by decide +kernel, by decide⟩
  obtain ⟨-, ⟨finish, hrun, hfinish⟩, -⟩ :=
    idle_keeps_samples .binary32 files c hactive (by decide) hidle
  have hwhole : source.Whole .sixteen := ⟨rfl, by decide, rfl⟩
  have hexpanded : source.expanded .sixteen = output := by decide +kernel
  rw [hrun]
  show (finish source).run none = _
  rw [hfinish .sixteen source hwhole, hexpanded]
  rfl

end HueSaturation
