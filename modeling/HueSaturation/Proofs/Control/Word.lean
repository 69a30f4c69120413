import HueSaturation.Proofs.Control.Values

/-!
# The published word, bit by bit

The word is computed as a number to the base 4096. As bits it is five slots of 12 bits each, with
four unused bits above them; a slot is read as a number in two's complement.

* `Settings.field`          the bits of one slot;
* `Settings.field_pack`, `toBitVec_get_unpack`   packing cuts a value down to its 12 low bits,
  unpacking extends the sign again;
* `Settings.pack_unpack`    a word on the way through the settings loses its four unused bits;
* `Settings.toBitVec_pack`  the word made by masks and shifts;
* `Settings.getLsbD_pack_set`   a new value changes no bit outside its slot;
* `packing_is_a_bijection`  the whole of it.
-/

namespace HueSaturation

open Binary32 (val away)

namespace Settings

/-! ## one slot -/

def field (word : UInt64) (k : Control) : BitVec 12 :=
  word.toBitVec.extractLsb' (12 * k.slot) 12

theorem toNat_field (word : UInt64) (k : Control) :
    (field word k).toNat = slotBits word k.slot := by
  show (word.toBitVec.extractLsb' (12 * k.slot) 12).toNat = word.toNat / 4096 ^ k.slot % 4096
  rw [BitVec.extractLsb'_toNat, Nat.shiftRight_eq_div_pow, pow_mul]
  rfl

theorem encodeSlot_decodeSlot {n : ℕ} (h1 : n < 4096) : encodeSlot (decodeSlot n) = n := by
  rw [encodeSlot, toInt_decodeSlot h1]
  split <;> omega

theorem toInt_get_unpack (word : UInt64) (k : Control) :
    ((unpack word).values.get k).toInt = (field word k).toInt := by
  rw [get_unpack, toInt_decodeSlot (slotBits_lt word k.slot), BitVec.toInt_eq_toNat_cond,
    toNat_field]
  have h1 := slotBits_lt word k.slot
  split <;> split <;> omega

/-- Unpacking extends the sign of a slot. -/
theorem toBitVec_get_unpack (word : UInt64) (k : Control) :
    ((unpack word).values.get k).toBitVec = (field word k).signExtend 16 := by
  apply BitVec.eq_of_toInt_eq
  rw [BitVec.toInt_signExtend_of_le (by norm_num), Int16.toInt_toBitVec, toInt_get_unpack]

theorem fits_unpack (word : UInt64) : (unpack word).Fits := by
  intro k
  rw [get_unpack, toInt_decodeSlot (slotBits_lt word k.slot)]
  have h1 := slotBits_lt word k.slot
  split <;> omega

/-- Packing keeps the 12 low bits of a value. -/
theorem field_pack (s : Settings) (k : Control) :
    field s.pack k = (s.values.get k).toBitVec.setWidth 12 := by
  apply BitVec.eq_of_toNat_eq
  rw [toNat_field, slotBits_pack, encodeSlot, BitVec.toNat_setWidth, ← Int16.toInt_toBitVec,
    BitVec.toInt_eq_toNat_cond]
  split <;> omega

theorem toInt_field_pack {s : Settings} {k : Control} (h1 : -2048 ≤ (s.values.get k).toInt)
    (h2 : (s.values.get k).toInt ≤ 2047) : (field s.pack k).toInt = (s.values.get k).toInt := by
  rw [← toInt_get_unpack, get_unpack, slotBits_pack, decodeSlot_encodeSlot h1 h2]

/-! ## the whole word -/

theorem pack_lt (s : Settings) : s.pack.toNat < 2 ^ 60 := by
  have h1 := encodeSlot_lt s.values.hue
  have h2 := encodeSlot_lt s.values.saturation
  have h3 := encodeSlot_lt s.values.vibrance
  have h4 := encodeSlot_lt s.values.luminosity
  have h5 := encodeSlot_lt s.values.contrast
  rw [toNat_pack]
  omega

theorem toNat_pack_unpack (word : UInt64) : (unpack word).pack.toNat = word.toNat % 2 ^ 60 := by
  have hslot : ∀ i, encodeSlot (decodeSlot (slotBits word i)) = word.toNat / 4096 ^ i % 4096 :=
    fun i => encodeSlot_decodeSlot (slotBits_lt word i)
  rw [toNat_pack]
  show encodeSlot (decodeSlot (slotBits word 0))
    + 4096 * (encodeSlot (decodeSlot (slotBits word 1))
      + 4096 * (encodeSlot (decodeSlot (slotBits word 2))
        + 4096 * (encodeSlot (decodeSlot (slotBits word 3))
          + 4096 * encodeSlot (decodeSlot (slotBits word 4))))) = _
  rw [hslot, hslot, hslot, hslot, hslot]
  omega

/-- The way through the settings clears the four bits above the slots. -/
theorem pack_unpack (word : UInt64) : (unpack word).pack = word &&& 0x0fffffffffffffff := by
  have hmask : (0x0fffffffffffffff : UInt64).toNat = 2 ^ 60 - 1 := rfl
  apply UInt64.toNat_inj.1
  rw [toNat_pack_unpack, UInt64.toNat_and, hmask, Nat.and_two_pow_sub_one_eq_mod]

theorem pack_unpack_of_lt {word : UInt64} (h1 : word.toNat < 2 ^ 60) :
    (unpack word).pack = word := by
  apply UInt64.toNat_inj.1
  rw [toNat_pack_unpack, Nat.mod_eq_of_lt h1]

theorem pack_and_unused (s : Settings) : s.pack &&& 0xf000000000000000 = 0 := by
  calc s.pack &&& 0xf000000000000000
      = (s.pack &&& 0x0fffffffffffffff) &&& 0xf000000000000000 := by
        rw [← pack_unpack, pack_unpack_of_lt s.pack_lt]
    _ = s.pack &&& (0x0fffffffffffffff &&& 0xf000000000000000) := UInt64.and_assoc _ _ _
    _ = 0 := UInt64.and_zero

theorem bijOn_pack : Set.BijOn pack {s | s.Fits} {word | word.toNat < 2 ^ 60} := by
  have hinv : Set.InvOn unpack pack {s | s.Fits} {word | word.toNat < 2 ^ 60} :=
    ⟨fun s hs => unpack_pack hs, fun word hword => pack_unpack_of_lt hword⟩
  exact hinv.bijOn (fun s _ => pack_lt s) (fun word _ => fits_unpack word)

/-! ## bits -/

/-- The bits below the unused ones are those of the slots. -/
theorem exists_slot {i : ℕ} (h1 : i < 60) :
    ∃ k : Control, 12 * k.slot ≤ i ∧ i < 12 * k.slot + 12 := by
  rcases (by omega : i < 12 ∨ 12 ≤ i ∧ i < 24 ∨ 24 ≤ i ∧ i < 36 ∨ 36 ≤ i ∧ i < 48 ∨ 48 ≤ i)
    with h | h | h | h | h
  · exact ⟨.hue, Nat.zero_le i, h⟩
  · exact ⟨.saturation, h⟩
  · exact ⟨.vibrance, h⟩
  · exact ⟨.luminosity, h⟩
  · exact ⟨.contrast, h, h1⟩

theorem getLsbD_field (word : UInt64) {k : Control} {i : ℕ} (h1 : 12 * k.slot ≤ i)
    (h2 : i < 12 * k.slot + 12) :
    (field word k).getLsbD (i - 12 * k.slot) = word.toBitVec.getLsbD i := by
  rw [field, BitVec.getLsbD_extractLsb', Nat.add_sub_cancel' h1]
  simp [show i - 12 * k.slot < 12 by omega]

theorem getLsbD_pack_of_le (s : Settings) {i : ℕ} (h1 : 60 ≤ i) :
    s.pack.toBitVec.getLsbD i = false := by
  show s.pack.toNat.testBit i = false
  exact Nat.testBit_lt_two_pow (s.pack_lt.trans_le (Nat.pow_le_pow_right (by norm_num) h1))

/-- The 12 low bits of a value, moved to the slot of `k`. -/
def shifted (v : Int16) (k : Control) : BitVec 64 :=
  (v.toBitVec.signExtend 64 &&& (BitVec.allOnes 12).setWidth 64) <<< (12 * k.slot)

theorem getLsbD_shifted (v : Int16) (k : Control) {i : ℕ} (h1 : i < 64) :
    (shifted v k).getLsbD i
      = (decide (12 * k.slot ≤ i ∧ i < 12 * k.slot + 12)
        && v.toBitVec.getLsbD (i - 12 * k.slot)) := by
  rw [shifted, BitVec.getLsbD_shiftLeft, BitVec.getLsbD_and, BitVec.getLsbD_setWidth,
    BitVec.getLsbD_allOnes, BitVec.getLsbD_signExtend]
  by_cases h2 : 12 * k.slot ≤ i ∧ i < 12 * k.slot + 12
  · simp [h2, h1, show ¬ i < 12 * k.slot by omega, show i - 12 * k.slot < 12 by omega,
      show i - 12 * k.slot < 64 by omega, show i - 12 * k.slot < 16 by omega]
  · rw [decide_eq_false h2]
    by_cases h3 : i < 12 * k.slot
    · simp [h3]
    · simp [show ¬ i - 12 * k.slot < 12 by omega]

/-- The word is the values cut down to 12 bits, moved to their slots and joined: no sign reaches
the slots above. -/
theorem toBitVec_pack (s : Settings) :
    s.pack.toBitVec
      = Control.all.foldl (fun word k => word ||| shifted (s.values.get k) k) 0 := by
  apply BitVec.eq_of_getLsbD_eq
  intro i hi
  simp only [Control.all, List.foldl, BitVec.getLsbD_or, getLsbD_shifted _ _ hi]
  by_cases h1 : i < 60
  · obtain ⟨j, h2, h3⟩ := exists_slot h1
    have hslot : ∀ k : Control, (12 * k.slot ≤ i ∧ i < 12 * k.slot + 12) ↔ k = j := by
      intro k
      constructor
      · intro h4
        have h5 : k.slot = j.slot := by omega
        cases k <;> cases j <;> first | rfl | cases h5
      · rintro rfl
        exact ⟨h2, h3⟩
    rw [← getLsbD_field _ h2 h3, field_pack, BitVec.getLsbD_setWidth]
    simp only [hslot]
    cases j <;> simp <;> grind
  · have hslot : ∀ k : Control, ¬ (12 * k.slot ≤ i ∧ i < 12 * k.slot + 12) := by
      intro k
      cases k <;> simp [Control.slot] <;> omega
    simp [getLsbD_pack_of_le _ (not_lt.1 h1), hslot]

/-- A new value changes no bit outside its slot. -/
theorem getLsbD_pack_set (s : Settings) (k : Control) (v : Float32) {i : ℕ}
    (h1 : ¬ (12 * k.slot ≤ i ∧ i < 12 * k.slot + 12)) :
    (s.set k v).pack.toBitVec.getLsbD i = s.pack.toBitVec.getLsbD i := by
  by_cases h2 : i < 60
  · obtain ⟨j, h3, h4⟩ := exists_slot h2
    have hjk : j ≠ k := by
      rintro rfl
      exact h1 ⟨h3, h4⟩
    have hget : (s.set k v).values.get j = s.values.get j := PerControl.get_set_of_ne _ _ hjk
    rw [← getLsbD_field _ h3 h4, ← getLsbD_field _ h3 h4, field_pack, field_pack, hget]
  · rw [getLsbD_pack_of_le _ (not_lt.1 h2), getLsbD_pack_of_le _ (not_lt.1 h2)]

theorem toInt_field_set (s : Settings) (k : Control) (v : Float32) :
    (field (s.set k v).pack k).toInt
      = if v.isFinite then max (-2047) (min 2047 (away (val v))) else 0 := by
  have hget : (s.set k v).values.get k = slotValue v := PerControl.get_set_self _ _ _
  obtain ⟨h1, h2⟩ := abs_le.1 (abs_slotValue_le v)
  rw [toInt_field_pack (by rw [hget]; omega) (by rw [hget]; omega), hget]
  split
  · next hv => exact slotValue_eq hv
  · next hv =>
    rw [slotValue, if_neg hv]
    rfl

end Settings

/-- **Packing is a bijection onto words of 60 bits, slot by slot.** Settings whose values have 12
bits come back from their word, which leaves the four highest bits at zero. A word comes back from
its settings but for these four bits. And a new value, whatever float it is, changes no bit outside
the 12 of its control: these hold the nearest whole number, a half away from zero, cut down to
`[-2047, 2047]`, in two's complement, or zero for what is not finite. -/
theorem packing_is_a_bijection :
    (∀ s : Settings, s.Fits → .unpack s.pack = s ∧ s.pack &&& 0xf000000000000000 = 0)
      ∧ (∀ word : UInt64, (Settings.unpack word).pack = word &&& 0x0fffffffffffffff)
      ∧ Set.BijOn Settings.pack {s | s.Fits} {word | word.toNat < 2 ^ 60}
      ∧ ∀ (s : Settings) (k : Control) (v : Float32),
        (∀ i, (s.set k v).pack.toBitVec.getLsbD i ≠ s.pack.toBitVec.getLsbD i →
          12 * k.slot ≤ i ∧ i < 12 * k.slot + 12)
        ∧ (Settings.field (s.set k v).pack k).toInt
          = if v.isFinite then max (-2047) (min 2047 (away (val v))) else 0 := by
  refine ⟨?_, Settings.pack_unpack, Settings.bijOn_pack, ?_⟩
  · intro s hs
    exact ⟨Settings.unpack_pack hs, s.pack_and_unused⟩
  · intro s k v
    refine ⟨?_, s.toInt_field_set k v⟩
    intro i h
    by_contra hc
    exact h (s.getLsbD_pack_set k v hc)

/-- The lowest, the highest and two small values, and a saturation far outside what fits. -/
theorem packing_of_extremes :
    Settings.unpack (Settings.mk ⟨-2048, 2047, -1, 0, 5⟩).pack = ⟨⟨-2048, 2047, -1, 0, 5⟩⟩
      ∧ ((Settings.neutral.set .saturation 1.0e30).pack.toBitVec.getLsbD 12
          ≠ Settings.neutral.pack.toBitVec.getLsbD 12
        ∧ 12 * Control.slot .saturation ≤ 12)
      ∧ (Settings.field (Settings.neutral.set .saturation 1.0e30).pack .saturation).toInt
        = 2047 := by
  obtain ⟨h1, -, -, h2⟩ := packing_is_a_bijection
  have hfits : (Settings.mk ⟨-2048, 2047, -1, 0, 5⟩).Fits := by
    intro k
    cases k <;> decide
  have hbit : (Settings.neutral.set .saturation 1.0e30).pack.toBitVec.getLsbD 12
      ≠ Settings.neutral.pack.toBitVec.getLsbD 12 := by
    decide +kernel
  refine ⟨(h1 _ hfits).1, ⟨hbit, ((h2 _ .saturation _).1 12 hbit).1⟩, ?_⟩
  rw [(h2 _ _ _).2]
  decide +kernel

end HueSaturation
