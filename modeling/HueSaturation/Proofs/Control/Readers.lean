import HueSaturation.Proofs.Control.Calls

/-!
# What readers see

A reader loads the published word whenever it likes, between two calls of the writer or in the
middle of one. Since a call stores at most once, and before it calls the listener, what the reader
finds are the settings before or after the whole call.

* `Panel.readerSettings_eq`   between two calls readers see the current settings;
* `Session`          a writer that performs what its calls do outside one step after another;
* `Session.Stored`, `Storing`  the word in memory is the one after the call in progress, or the one
                     before it with the store to come;
* `readers_see_whole_calls`   one store for each change, and no load sees a part of one.
-/

namespace HueSaturation

def Signal.isStore : Signal → Bool
  | store _ => true
  | notify .. => false

theorem Panel.readerSettings_eq {p : Panel} (hp : p.Valid) : p.readerSettings = p.current := by
  rw [readerSettings, hp.word]
  refine Settings.unpack_pack fun k => ?_
  have h1 := abs_le.1 (abs_le_of_admits hp hp.admits k)
  omega

theorem Panel.after_concat (p : Panel) (calls : List Panel.Call) (c : Panel.Call) :
    p.after (calls ++ [c]) = (c.outcome (p.after calls)).panel :=
  List.foldl_concat ..

/-! ## one call -/

section
variable {α : Type} {p : Panel} {o : Outcome α}

theorem Signal.countP_isStore_of_notify {calls : List Signal}
    (h1 : ∀ s ∈ calls, ∃ name k v, s = Signal.notify name k v) :
    calls.countP Signal.isStore = 0 := by
  rw [List.countP_eq_zero]
  intro s hs
  obtain ⟨name, k, v, rfl⟩ := h1 s hs
  exact Bool.false_ne_true

theorem Outcome.Lawful.one_store (h1 : o.Lawful p) : o.signals.countP Signal.isStore ≤ 1 := by
  rcases h1.effect with h | h
  · rw [h.signals]
    exact Nat.zero_le 1
  · obtain ⟨calls, h2, h3⟩ := h.signals
    rw [h2, List.countP_cons, Signal.countP_isStore_of_notify h3]
    exact Nat.le_refl 1

theorem Outcome.Lawful.store_first (h1 : o.Lawful p) {xs ys : List Signal} {name : String}
    {k : Control} {v : Float32} (h2 : o.signals = xs ++ .notify name k v :: ys) :
    .store o.panel.word ∈ xs := by
  rcases h1.effect with h | h
  · rw [h.signals] at h2
    cases xs <;> cases h2
  · obtain ⟨calls, h3, -⟩ := h.signals
    rw [h3] at h2
    cases xs with
    | nil => cases h2
    | cons x xs =>
      rw [List.cons_append, List.cons.injEq] at h2
      exact h2.1 ▸ List.mem_cons_self

theorem Outcome.Lawful.quiet_of_error (h1 : o.Lawful p) {e : PanelError}
    (h2 : o.result = .error e) : o.Quiet p := by
  refine h1.effect.resolve_right ?_
  intro h
  have h3 := h.result
  rw [h2] at h3
  cases h3

end

/-! ## the writer and its readers -/

/-- A writer in the middle of its calls: what the last one has still to do outside the panel, and
the word that readers load. -/
structure Session where
  started : List Panel.Call
  pending : List Signal
  memory : UInt64

namespace Session

def idle : Session :=
  ⟨[], [], Settings.neutral.pack⟩

def panel (s : Session) : Panel :=
  Panel.empty.after s.started

/-- The panel before the call in progress, or before the last one. -/
def before (s : Session) : Panel :=
  Panel.empty.after s.started.dropLast

/-- What a reader sees that loads the word now. -/
def load (s : Session) : Settings :=
  .unpack s.memory

/-- A step of the writer: it starts a call, or performs the next signal of the one in progress. -/
inductive Event where
  | call (c : Panel.Call)
  | signal

/-- The writer starts a call only when the one before is done. -/
def step (s : Session) : Event → Session
  | .call c =>
    match s.pending with
    | [] => { s with started := s.started ++ [c], pending := (c.outcome s.panel).signals }
    | _ :: _ => s
  | .signal =>
    match s.pending with
    | [] => s
    | .store word :: rest => { s with pending := rest, memory := word }
    | .notify .. :: rest => { s with pending := rest }

def after (s : Session) (events : List Event) : Session :=
  events.foldl step s

/-- Only calls of the listener are to come. -/
def Stored (s : Session) : Prop :=
  s.memory = s.panel.word ∧ ∀ x ∈ s.pending, ∃ name k v, x = Signal.notify name k v

/-- The store is to come, and calls of the listener after it. -/
def Storing (s : Session) : Prop :=
  s.memory = s.before.word ∧ ∃ calls, s.pending = .store s.panel.word :: calls
    ∧ ∀ x ∈ calls, ∃ name k v, x = Signal.notify name k v

theorem stored_or_storing_step {s : Session} (h1 : s.Stored ∨ s.Storing) (e : Event) :
    (s.step e).Stored ∨ (s.step e).Storing := by
  cases e with
  | call c =>
    cases hp : s.pending with
    | cons x rest =>
      have h2 : s.step (.call c) = s := by rw [step, hp]
      rw [h2]
      exact h1
    | nil =>
      have hmem : s.memory = s.panel.word := by
        rcases h1 with h | ⟨-, calls, h, -⟩
        · exact h.1
        · rw [hp] at h
          cases h
      have h2 : s.step (.call c)
          = { s with started := s.started ++ [c], pending := (c.outcome s.panel).signals } := by
        rw [step, hp]
      have hpanel : (s.step (.call c)).panel = (c.outcome s.panel).panel := by
        rw [h2]
        exact Panel.after_concat _ _ _
      have hbefore : (s.step (.call c)).before = s.panel := by
        rw [h2, before, List.dropLast_concat]
        rfl
      have hlawful : (c.outcome s.panel).Lawful s.panel := c.lawful (Panel.valid_empty.after _)
      rcases hlawful.effect with h | h
      · left
        refine ⟨?_, ?_⟩
        · rw [hpanel, h.word, h2]
          exact hmem
        · rw [h2]
          intro x hx
          change x ∈ (c.outcome s.panel).signals at hx
          rw [h.signals] at hx
          cases hx
      · right
        obtain ⟨calls, h3, h4⟩ := h.signals
        refine ⟨?_, calls, ?_, h4⟩
        · rw [hbefore, h2]
          exact hmem
        · rw [hpanel, h2]
          exact h3
  | signal =>
    rcases h1 with ⟨hmem, hpending⟩ | ⟨hmem, calls, hpending, hcalls⟩
    · left
      cases hp : s.pending with
      | nil =>
        have h2 : s.step .signal = s := by rw [step, hp]
        rw [h2]
        exact ⟨hmem, hpending⟩
      | cons x rest =>
        obtain ⟨name, k, v, rfl⟩ := hpending x (hp ▸ List.mem_cons_self)
        have h2 : s.step .signal = { s with pending := rest } := by rw [step, hp]
        rw [h2]
        exact ⟨hmem, fun y hy => hpending y (hp ▸ List.mem_cons_of_mem _ hy)⟩
    · left
      have h2 : s.step .signal = { s with pending := calls, memory := s.panel.word } := by
        rw [step, hpending]
      rw [h2]
      exact ⟨rfl, hcalls⟩

theorem stored_or_storing (events : List Event) :
    (idle.after events).Stored ∨ (idle.after events).Storing := by
  suffices h : ∀ s : Session, s.Stored ∨ s.Storing →
      (s.after events).Stored ∨ (s.after events).Storing from
    h idle (.inl ⟨rfl, fun _ hx => absurd hx List.not_mem_nil⟩)
  induction events with
  | nil => exact fun _ h => h
  | cons e events ih => exact fun s h => ih (s.step e) (stored_or_storing_step h e)

theorem load_eq {s : Session} {p : Panel} (hp : p.Valid) (h1 : s.memory = p.word) :
    s.load = p.current := by
  rw [load, h1]
  exact p.readerSettings_eq hp

end Session

/-- **Readers see whole calls.** A call on a panel stores the word at most once and before it calls
the listener; readers find the current settings after it, and the revision has grown by one if it
changed them and by nothing otherwise, as when it fails. So whenever a reader loads the word it
finds the settings before or after the call in progress: those after it once the listener is called
or the call is done. -/
theorem readers_see_whole_calls :
    (∀ (calls : List Panel.Call) (c : Panel.Call),
      let p := Panel.empty.after calls
      let o := c.outcome p
      o.signals.countP Signal.isStore ≤ 1
        ∧ o.panel.readerSettings = o.panel.current
        ∧ (o.panel.revision = if o.panel.current = p.current then p.revision else p.revision + 1)
        ∧ (∀ e, o.result = .error e → o.panel.current = p.current ∧ o.panel.revision = p.revision)
        ∧ ∀ xs name k v ys, o.signals = xs ++ .notify name k v :: ys → .store o.panel.word ∈ xs)
    ∧ ∀ events : List Session.Event,
      let s := Session.idle.after events
      (s.load = s.before.current ∨ s.load = s.panel.current)
        ∧ (∀ name k v rest, s.pending = .notify name k v :: rest → s.load = s.panel.current)
        ∧ (s.pending = [] → s.load = s.panel.current) := by
  constructor
  · intro calls c p o
    have ho : o.Lawful p := c.lawful (Panel.valid_empty.after calls)
    refine ⟨ho.one_store, Panel.readerSettings_eq ho.valid, ho.revision, ?_, ?_⟩
    · intro e he
      have h := ho.quiet_of_error he
      exact ⟨h.current, h.revision⟩
    · intro xs name k v ys h
      exact ho.store_first h
  · intro events s
    have hafter : s.panel.Valid := Panel.valid_empty.after _
    have hbefore : s.before.Valid := Panel.valid_empty.after _
    rcases Session.stored_or_storing events with ⟨hmem, -⟩ | ⟨hmem, calls, hpending, -⟩
    · have h := Session.load_eq hafter hmem
      exact ⟨.inr h, fun _ _ _ _ _ => h, fun _ => h⟩
    · have h := Session.load_eq hbefore hmem
      refine ⟨.inl h, ?_, ?_⟩
      · intro name k v rest hrest
        rw [hpending] at hrest
        cases hrest
      · intro hnil
        rw [hpending] at hnil
        cases hnil

end HueSaturation
