import ColdFire.Proofs.Instruction.Reencode.Basic

namespace ColdFire

namespace Definition

variable {d : Definition} {s : WordSource} {c : Cursor} {size : Size}

section Formats

variable (hd : d.Regular) (hfits : d.fits s.opcode = true) {name : String} {ops : Operands}
  (h : d.format.read d.mnemonic s .start = .ok (name, ops) c)

include hd hfits h

theorem recovers_move {immToDisp : Bool} (haccepts : d.format.accepts s.opcode = true)
    (hf : d.format = .move size immToDisp) : d.Recovers s name ops c.consumed := by
  rw [hf] at h haccepts
  simp only [Format.read, Decoder.opcode_bind, Decoder.bind_eq_ok, Decoder.pure_eq_ok] at h
  obtain ⟨src, _, hsrc, dst, _, hdst, ⟨⟩, rfl⟩ := h
  obtain ⟨hsrcField, hsrcMode, hsrcStand⟩ := Ea.of_readLow hsrc
  obtain ⟨hdstField, hdstMode, hdstStand⟩ := Ea.of_read (Field.toNat_get_lt (by decide) _)
    (Field.toNat_get_lt (by decide) _) hdst
  have hsize := hd.pickSize size (hf ▸ List.mem_singleton_self _)
  have hmodes := (fits_iff.1 hfits).2.2
  rw [hd.slot, hf] at hmodes
  have hsrc : Operands.require d.mnemonic "source" (some src) d.srcModes = .ok src :=
    require_of_lowModeIn hmodes.1 hsrcMode
  have hdst : Operands.require d.mnemonic "destination" (some dst) d.dstModes = .ok dst :=
    require_of_moveModeIn hmodes.2 hdstMode
  have hop := (((((agree hd hfits 0x0FFF (hf ▸ rfl)).set_get (f := .eaMode) (by decide)).set_get
    (f := .eaReg) (by decide)).set_get (f := .moveMode) (by decide)).set_get
    (f := .moveReg) (by decide)).eq_of_all
  rw [Format.accepts, hsrcMode, hdstMode] at haccepts
  have hbyte : Operands.refuseByteOfAddr d.mnemonic "source" size src = .ok () := by
    rw [Operands.refuseByteOfAddr_eq_ok]
    rintro ⟨rfl, han⟩
    cases immToDisp <;> simp [han, Modes.an, Modes.imm] at haccepts
  have hpair : (!immToDisp && !Modes.movePair src.modes dst.modes) = false := by
    cases immToDisp with
    | true => rfl
    | false => simp_all
  refine recovers_of hop (Ext.stand_ea hsrcStand (Ext.stand_ea hdstStand Ext.stand_nil)) ?_
  simp only [plan, hf, except_bind_eq_ok]
  refine ⟨size, hsize, src, hsrc, dst, hdst, (), hbyte, ?_⟩
  rw [if_neg (by rw [hpair]; decide), hsrcField, hdstField]
  rfl

theorem recovers_moveq (hf : d.format = .moveq) : d.Recovers s name ops c.consumed := by
  simp only [hf, Format.read, Decoder.opcode_bind, Decoder.pure_eq_ok] at h
  obtain ⟨⟨⟩, rfl⟩ := h
  have hsize := hd.pickSize .long (hf ▸ List.mem_singleton_self _)
  have hop := (((agree hd hfits 0x0EFF (hf ▸ rfl)).set_get (f := .highReg) (by decide)).set_get
    (f := .byteData) (by decide)).eq_of_all
  have hdata : (Size.byte.signExtend (Field.byteData.get s.opcode).toUInt32).toUInt8 =
      (Field.byteData.get s.opcode).toUInt8 := by
    rw [Size.toUInt8_signExtend_byte, UInt16.toUInt8_toUInt32]
  rw [← Field.toUInt16_toUInt8_get (f := .highReg) (by decide) (by decide),
    ← Field.toUInt16_toUInt8_get (f := .byteData) (by decide) (by decide), ← hdata] at hop
  have hrange := Size.signExtend_byte_range (Field.byteData.get s.opcode).toUInt32
  refine recovers_of hop Ext.stand_nil ?_
  simp only [plan, hf, except_bind_eq_ok]
  refine ⟨.long, hsize, _, Operands.requireImmediate_eq_ok.2 ⟨_, rfl, rfl⟩, ?_⟩
  rw [if_neg hrange, except_bind_eq_ok]
  exact ⟨_, Operands.requireDataReg_eq_ok.2 ⟨_, rfl, rfl⟩, rfl⟩

theorem recovers_moveExtend (hf : d.format = .moveExtend) : d.Recovers s name ops c.consumed := by
  simp only [hf, Format.read, Decoder.opcode_bind, Decoder.bind_pure_eq_ok] at h
  obtain ⟨ea, hea, ⟨⟩⟩ := h
  obtain ⟨hfield, hmode, hstand⟩ := Ea.of_readLow hea
  have hsrc : Operands.require d.mnemonic "source" (some ea) d.srcModes = .ok ea :=
    require_src hd hfits (hf ▸ rfl) hmode
  have hsize := hd.pickSize (if s.opcode &&& 0x0040 ≠ 0 then Size.word else .byte) (by
    rw [hf]
    split <;> simp [Format.sizes])
  have hroom : Field.highReg.set d.opcode (Field.highReg.get s.opcode) &&& 0x007F = 0 := by
    rw [Field.set_and_of_disjoint (by decide) (by decide)]
    exact opcode_and hd (by rw [hf]; decide)
  have hflag : (if (if s.opcode &&& 0x0040 ≠ 0 then Size.word else .byte) = .word
      then 0x0040 else 0) = s.opcode &&& 0x0040 := by
    rcases and_bit s.opcode (i := 6) (by decide) with hbit | hbit
    · rw [show UInt16.ofNat (2 ^ 6) = 0x0040 from rfl] at hbit
      rw [hbit]
      rfl
    · rw [show UInt16.ofNat (2 ^ 6) = 0x0040 from rfl] at hbit
      rw [hbit]
      rfl
  have hagree := ((agree hd hfits 0x0E7F (hf ▸ rfl)).set_get (f := .highReg) (by decide)).or_and
    (k := 0x0040) (and_eq_zero_of_and_eq hroom (by decide))
  have hclear : s.opcode &&& 0x0040 &&& 0x003F = 0 := by
    rw [UInt16.and_assoc]
    exact UInt16.and_zero
  have hop := (hagree.or_lowField (or_and_eq_zero (and_eq_zero_of_and_eq hroom (by decide)) hclear)
    hfield).eq_of_all
  rw [← hflag, ← Field.toUInt16_toUInt8_get (f := .highReg) (by decide) (by decide)] at hop
  refine recovers_of hop (Ext.stand_ea hstand Ext.stand_nil) ?_
  simp only [plan, hf, except_bind_eq_ok, except_pure_eq_ok]
  exact ⟨_, hsize, ea, hsrc, _, Operands.requireDataReg_eq_ok.2 ⟨_, rfl, rfl⟩, rfl⟩

theorem recovers_listToEa (hf : d.format = .listToEa) : d.Recovers s name ops c.consumed := by
  simp only [hf, Format.read, Decoder.opcode_bind, Decoder.bind_eq_ok, Decoder.nextWord_eq_ok,
    Decoder.pure_eq_ok] at h
  obtain ⟨mask, _, ⟨hmask, rfl⟩, ea, _, hea, ⟨⟩, rfl⟩ := h
  obtain ⟨hfield, hmode, hstand⟩ := Ea.of_readLow hea
  have hsize := hd.pickSize .long (hf ▸ List.mem_singleton_self _)
  have hdst : Operands.require d.mnemonic "destination" (some ea) d.dstModes = .ok ea :=
    require_dst hd hfits (hf ▸ rfl) hmode
  refine recovers_of (opword_ea hd hfits (hf ▸ rfl) hfield)
    (Ext.stand_word hmask (Ext.stand_ea hstand Ext.stand_nil)) ?_
  simp only [plan, hf, except_bind_eq_ok, except_pure_eq_ok]
  exact ⟨.long, hsize, ea, hdst, mask, rfl, rfl⟩

theorem recovers_eaToList (hf : d.format = .eaToList) : d.Recovers s name ops c.consumed := by
  simp only [hf, Format.read, Decoder.opcode_bind, Decoder.bind_eq_ok, Decoder.nextWord_eq_ok,
    Decoder.pure_eq_ok] at h
  obtain ⟨mask, _, ⟨hmask, rfl⟩, ea, _, hea, ⟨⟩, rfl⟩ := h
  obtain ⟨hfield, hmode, hstand⟩ := Ea.of_readLow hea
  have hsize := hd.pickSize .long (hf ▸ List.mem_singleton_self _)
  have hsrc : Operands.require d.mnemonic "source" (some ea) d.srcModes = .ok ea :=
    require_src hd hfits (hf ▸ rfl) hmode
  refine recovers_of (opword_ea hd hfits (hf ▸ rfl) hfield)
    (Ext.stand_word hmask (Ext.stand_ea hstand Ext.stand_nil)) ?_
  simp only [plan, hf, except_bind_eq_ok, except_pure_eq_ok]
  exact ⟨.long, hsize, ea, hsrc, mask, rfl, rfl⟩

theorem recovers_lea (hf : d.format = .lea) : d.Recovers s name ops c.consumed := by
  simp only [hf, Format.read, Decoder.opcode_bind, Decoder.bind_pure_eq_ok] at h
  obtain ⟨ea, hea, ⟨⟩⟩ := h
  obtain ⟨hfield, hmode, hstand⟩ := Ea.of_readLow hea
  have hsrc : Operands.require d.mnemonic "source" (some ea) d.srcModes = .ok ea :=
    require_src hd hfits (hf ▸ rfl) hmode
  have hroom : d.opcode &&& 0x003F = 0 := opcode_and hd (by rw [hf]; decide)
  have hop := (((agree hd hfits 0x0E3F (hf ▸ rfl)).or_lowField hroom hfield).set_get
    (f := .highReg) (by decide)).eq_of_all
  rw [← Field.toUInt16_toUInt8_get (f := .highReg) (by decide) (by decide)] at hop
  refine recovers_of hop (Ext.stand_ea hstand Ext.stand_nil) ?_
  simp only [plan, hf, except_bind_eq_ok, except_pure_eq_ok]
  exact ⟨ea, hsrc, _, Operands.requireAddrReg_eq_ok.2 ⟨_, rfl, rfl⟩, rfl⟩

theorem recovers_pea (hf : d.format = .pea) : d.Recovers s name ops c.consumed := by
  simp only [hf, Format.read, Decoder.opcode_bind, Decoder.bind_pure_eq_ok] at h
  obtain ⟨ea, hea, ⟨⟩⟩ := h
  obtain ⟨hfield, hmode, hstand⟩ := Ea.of_readLow hea
  have hsrc : Operands.require d.mnemonic "source" (some ea) d.srcModes = .ok ea :=
    require_src hd hfits (hf ▸ rfl) hmode
  refine recovers_of (opword_ea hd hfits (hf ▸ rfl) hfield) (Ext.stand_ea hstand Ext.stand_nil) ?_
  simp only [plan, hf, except_bind_eq_ok, except_pure_eq_ok]
  exact ⟨ea, hsrc, (), rfl, rfl⟩

theorem recovers_jump (hf : d.format = .jump) : d.Recovers s name ops c.consumed := by
  simp only [hf, Format.read, Decoder.opcode_bind, Decoder.bind_pure_eq_ok] at h
  obtain ⟨ea, hea, ⟨⟩⟩ := h
  obtain ⟨hfield, hmode, hstand⟩ := Ea.of_readLow hea
  have hsrc : Operands.require d.mnemonic "target" (some ea) d.srcModes = .ok ea :=
    require_src hd hfits (hf ▸ rfl) hmode
  refine recovers_of (opword_ea hd hfits (hf ▸ rfl) hfield) (Ext.stand_ea hstand Ext.stand_nil) ?_
  simp only [plan, hf, except_bind_eq_ok, except_pure_eq_ok]
  exact ⟨ea, hsrc, (), rfl, rfl⟩

theorem recovers_link (hf : d.format = .link) : d.Recovers s name ops c.consumed := by
  simp only [hf, Format.read, Ea.readImmediate, Decoder.opcode_bind, Decoder.bind_pure_eq_ok,
    Decoder.nextWord_eq_ok] at h
  obtain ⟨ea, ⟨w, ⟨hw, rfl⟩, rfl⟩, ⟨⟩⟩ := h
  have hsize := hd.pickSize .word (hf ▸ List.mem_singleton_self _)
  have hrange : ¬ (w.toUInt32.toInt32 < -0x8000 ∨ 0xFFFF < w.toUInt32.toInt32) := by
    rw [Int32.lt_iff_toInt_lt, Int32.lt_iff_toInt_lt, toInt_toInt32_toUInt32]
    have hlt := w.toNat_lt
    change ¬ (_ < (-0x8000 : Int) ∨ (0xFFFF : Int) < _)
    omega
  refine recovers_of (opword_lowReg hd hfits (hf ▸ rfl)) (Ext.stand_word hw Ext.stand_nil) ?_
  simp only [plan, hf, except_bind_eq_ok]
  refine ⟨.word, hsize, _, Operands.requireAddrReg_eq_ok.2 ⟨_, rfl, rfl⟩, _,
    Operands.requireImmediate_eq_ok.2 ⟨_, rfl, rfl⟩, ?_⟩
  rw [if_neg hrange, UInt16.toUInt16_toUInt32]
  rfl

theorem recovers_unlk (hf : d.format = .unlk) : d.Recovers s name ops c.consumed := by
  simp only [hf, Format.read, Decoder.opcode_bind, Decoder.pure_eq_ok] at h
  obtain ⟨⟨⟩, rfl⟩ := h
  refine recovers_of (opword_lowReg hd hfits (hf ▸ rfl)) Ext.stand_nil ?_
  simp only [plan, hf, except_bind_eq_ok, except_pure_eq_ok]
  exact ⟨(), rfl, _, Operands.requireAddrReg_eq_ok.2 ⟨_, rfl, rfl⟩, rfl⟩

end Formats

end Definition

end ColdFire
