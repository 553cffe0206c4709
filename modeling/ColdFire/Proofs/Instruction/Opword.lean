import ColdFire.Proofs.Instruction.Demand
import ColdFire.Proofs.Instruction.Regular
import ColdFire.Proofs.Operand.Code

namespace ColdFire

theorem and_eq_zero_of_and_eq {x m k : UInt16} (h : x &&& m = 0) (hk : m &&& k = k) :
    x &&& k = 0 := by
  rw [← hk, ← UInt16.and_assoc, h, UInt16.zero_and]

theorem or_and_of_and_eq_zero {x y k : UInt16} (hy : y &&& k = 0) : (x ||| y) &&& k = x &&& k := by
  apply eq_of_bitAt_eq
  intro i hi
  have hy : (bitAt y i && bitAt k i) = false := by rw [← bitAt_and, hy]; simp [bitAt]
  rw [bitAt_and, bitAt_or, Bool.and_or_distrib_right, hy, Bool.or_false, bitAt_and]

theorem or_and_eq_zero {x y k : UInt16} (hx : x &&& k = 0) (hy : y &&& k = 0) :
    (x ||| y) &&& k = 0 := by
  rw [or_and_of_and_eq_zero hy, hx]

namespace Field

variable {f : Field}

theorem toUInt16_toUInt8_get (h : f.InWord) (hw : f.width ≤ 8) (w : UInt16) :
    (f.get w).toUInt8.toUInt16 = f.get w := by
  apply toUInt16_toUInt8
  have := Nat.pow_le_pow_right (show 0 < 2 by decide) hw
  exact (toNat_get_lt h w).trans_le this

end Field

namespace Ea

variable {ea : Ea} {mode reg x : UInt16}

theorem field_of_modes_an (h : ea.modes = .an) : ∃ r, ea = addrReg r := by
  cases ea with
  | addrReg r => exact ⟨r, rfl⟩
  | _ => cases h

/-- Adding an operand field to a word that has room for it sets the field's two parts. -/
theorem or_lowField (hx : x &&& 0x003F = 0) (hf : ea.field? = some (mode, reg))
    (hm : mode.toNat < 8) (hr : reg.toNat < 8) :
    x ||| ea.lowField = Field.eaReg.set (Field.eaMode.set x mode) reg := by
  rw [lowField, lowField?, hf, Option.map_some, Option.getD_some]
  apply eq_of_bitAt_eq
  intro i hi
  have hlow : i < 6 → bitAt x i = false := by
    intro h6
    have hb : bitAt (x &&& 0x003F) i = bitAt 0 i := by rw [hx]
    have hone : bitAt 0x003F i = decide (i < 6) := Nat.testBit_two_pow_sub_one 6 i
    rw [bitAt_and, hone, decide_eq_true h6, Bool.and_true] at hb
    rw [hb]
    simp [bitAt]
  have hshift : bitAt (mode <<< 3) i = (decide (i < 16) && !decide (i < 3) && bitAt mode (i - 3)) :=
    bitAt_shiftLeft mode (s := 3) (by decide) i
  rw [bitAt_or, bitAt_or, hshift, Field.bitAt_set (f := .eaReg) (by decide) _ _ hi,
    Field.bitAt_set (f := .eaMode) (by decide) _ _ hi]
  change _ = if 0 ≤ i ∧ i < 3 then bitAt reg (i - 0) else
    if 3 ≤ i ∧ i < 6 then bitAt mode (i - 3) else bitAt x i
  by_cases h3 : i < 3
  · simp [h3, hlow (by omega)]
  · have hreg : bitAt reg i = false := bitAt_eq_false_of_lt (n := 3) hr (by omega)
    by_cases h6 : i < 6
    · simp [h3, h6, hi, hreg, hlow h6, show 3 ≤ i by omega]
    · have hmode : bitAt mode (i - 3) = false := bitAt_eq_false_of_lt (n := 3) hm (by omega)
      simp [h3, h6, hreg, hmode]

theorem field_of_modes (hregs : ea.RegistersExist) (h : ea.modes ≠ .none) :
    ∃ mode reg, ea.field? = some (mode, reg) ∧ mode.toNat < 8 ∧ reg.toNat < 8 ∧
      Modes.ofField? mode reg = some ea.modes := by
  cases ea with
  | dataReg r | addrReg r | indirect r | postInc r | preDec r | disp r _ =>
    exact ⟨_, _, rfl, by decide, toNat_toUInt16_lt hregs, rfl⟩
  | index r _ _ => exact ⟨_, _, rfl, by decide, toNat_toUInt16_lt hregs.1, rfl⟩
  | absShort _ | absLong _ | pcDisp _ | pcIndex _ _ | immediate _ =>
    exact ⟨_, _, rfl, by decide, by decide, rfl⟩
  | regList _ | relative _ | regPair _ _ | special _ => exact absurd rfl h

variable {s : WordSource} {c c' : Cursor} {size : Size}

theorem of_readLow (h : readLow size s c = .ok ea c') :
    ea.field? = some (Field.eaMode.get s.opcode, Field.eaReg.get s.opcode) ∧
      Modes.ofField? (Field.eaMode.get s.opcode) (Field.eaReg.get s.opcode) = some ea.modes ∧
      ea.StandsIn size s c.consumed c'.consumed := by
  rw [readLow, Decoder.bind_eq_ok] at h
  obtain ⟨op, _, hop, hea⟩ := h
  obtain ⟨rfl, rfl⟩ := Decoder.opcode_eq_ok.1 hop
  exact of_read (Field.toNat_get_lt (by decide) _) (Field.toNat_get_lt (by decide) _) hea

theorem readLow_of_field {ws : List UInt16} (hregs : ea.RegistersExist)
    (hf : ea.field? = some (Field.eaMode.get s.opcode, Field.eaReg.get s.opcode))
    (hw : ea.words size = .ok ws) (hs : s.Holds c.consumed ws) :
    ∃ mark, readLow size s c = .ok (ea.reduced size) ⟨c.consumed + ws.length, mark⟩ := by
  obtain ⟨mark, hread⟩ := read_of_field hregs hf hw hs
  refine ⟨mark, ?_⟩
  rw [readLow, Decoder.bind_eq_ok]
  exact ⟨_, _, Decoder.opcode_eq_ok.2 ⟨rfl, rfl⟩, hread⟩

end Ea

namespace AgreeOn

theorem or_lowField {m x w : UInt16} {ea : Ea} (h : AgreeOn m x w) (hx : x &&& 0x003F = 0)
    (hf : ea.field? = some (Field.eaMode.get w, Field.eaReg.get w)) :
    AgreeOn (m ||| Field.eaMode.mask ||| Field.eaReg.mask) (x ||| ea.lowField) w := by
  rw [Ea.or_lowField hx hf (Field.toNat_get_lt (by decide) w) (Field.toNat_get_lt (by decide) w)]
  exact (h.set_get (by decide)).set_get (by decide)

end AgreeOn

namespace Definition

variable {d : Definition} {w : UInt16} {ea : Ea}

theorem opcode_and (hd : d.Regular) {k : UInt16} (hk : d.format.operandMask &&& k = k) :
    d.opcode &&& k = 0 :=
  and_eq_zero_of_and_eq hd.opcode hk

/-- What a slot asks of the operands of an opcode word. -/
def Admits (d : Definition) (slot : Slot) (w : UInt16) : Prop :=
  match slot with
  | .none => True
  | .src => lowModeIn d.srcModes w = true
  | .dst => lowModeIn d.dstModes w = true
  | .move => lowModeIn d.srcModes w = true ∧ moveModeIn d.dstModes w = true

theorem fits_iff : d.fits w = true ↔ AgreeOn (~~~d.operandMask) d.opcode w ∧
    (∀ e ∈ d.exclusions, w &&& e.1 ≠ e.2) ∧ d.Admits d.slot w := by
  unfold fits AgreeOn
  rw [Bool.and_eq_true, Bool.and_eq_true, beq_iff_eq, List.all_eq_true, and_assoc, eq_comm]
  simp only [bne_iff_ne]
  cases d.slot <;> simp [Admits]

theorem agree_of_fits (hd : d.Regular) (h : d.fits w = true) :
    AgreeOn (~~~d.format.operandMask) d.opcode w :=
  hd.operandMask ▸ (fits_iff.1 h).1

theorem get_ne_of_excluded (hfits : d.fits w = true) {f : Field} (hf : f.InWord) (v : UInt16)
    (hex : (f.mask, f.set 0 v &&& f.mask) ∈ d.exclusions) : f.get w ≠ v := by
  intro hget
  have hne := (fits_iff.1 hfits).2.1 _ hex
  rw [Field.and_mask hf w, hget] at hne
  exact hne rfl

theorem ofField?_ne_none {mode reg : UInt16} {modes : Modes}
    (h : Modes.ofField? mode reg = some modes) : modes ≠ .none := by
  unfold Modes.ofField? at h
  split at h
  case h_8 => split at h <;> cases h <;> decide
  all_goals cases h; decide

/-- The operand of an opcode word that a definition claims is one that its encoder takes. -/
theorem require_of_lowModeIn {modes : Modes} {m which : String} (h : lowModeIn modes w = true)
    (hmode : Modes.ofField? (Field.eaMode.get w) (Field.eaReg.get w) = some ea.modes) :
    Operands.require m which (some ea) modes = .ok ea := by
  rw [lowModeIn, hmode, Option.any_some] at h
  exact Operands.require_eq_ok.2 ⟨rfl, h, ofField?_ne_none hmode⟩

theorem require_of_moveModeIn {modes : Modes} {m which : String} (h : moveModeIn modes w = true)
    (hmode : Modes.ofField? (Field.moveMode.get w) (Field.moveReg.get w) = some ea.modes) :
    Operands.require m which (some ea) modes = .ok ea := by
  rw [moveModeIn, hmode, Option.any_some] at h
  exact Operands.require_eq_ok.2 ⟨rfl, h, ofField?_ne_none hmode⟩

end Definition

end ColdFire
