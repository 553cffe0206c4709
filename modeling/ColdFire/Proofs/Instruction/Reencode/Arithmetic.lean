import ColdFire.Proofs.Instruction.Reencode.Basic

namespace ColdFire

namespace Definition

variable {d : Definition} {s : WordSource} {c : Cursor} {size : Size}

/-- The ending of a name tells whether a division is signed, and the beginning whether it keeps the
remainder. -/
theorem division_names (x : UInt16) :
    "s".toList.isSuffixOf (Text.lower (if x ≠ 0 then "divs" else "divu").toList) = (x != 0) ∧
      "s".toList.isSuffixOf (Text.lower (if x ≠ 0 then "rems" else "remu").toList) = (x != 0) ∧
      "rem".toList.isPrefixOf (Text.lower (if x ≠ 0 then "divs" else "divu").toList) = false ∧
      "rem".toList.isPrefixOf (Text.lower (if x ≠ 0 then "rems" else "remu").toList) = true := by
  by_cases hx : x = 0
  · subst hx
    decide
  · rw [if_pos hx, if_pos hx, bne_iff_ne.mpr hx]
    decide

section Formats

variable (hd : d.Regular) (hfits : d.fits s.opcode = true) {name : String} {ops : Operands}
  (h : d.format.read d.mnemonic s .start = .ok (name, ops) c)

include hd hfits h

theorem recovers_eaToData (hf : d.format = .eaToData size) : d.Recovers s name ops c.consumed := by
  simp only [hf, Format.read, Decoder.opcode_bind, Decoder.bind_pure_eq_ok] at h
  obtain ⟨ea, hea, ⟨⟩⟩ := h
  obtain ⟨hfield, hmode, hstand⟩ := Ea.of_readLow hea
  have hsize := hd.pickSize size (hf ▸ List.mem_singleton_self _)
  have hsrc : Operands.require d.mnemonic "source" (some ea) d.srcModes = .ok ea :=
    require_src hd hfits (hf ▸ rfl) hmode
  have hbyte : Operands.refuseByteOfAddr d.mnemonic "source" size ea = .ok () := by
    rw [Operands.refuseByteOfAddr_eq_ok]
    rintro ⟨rfl, han⟩
    have hmodes := hd.modes
    have hcontains := (Operands.require_eq_ok.1 hsrc).2.1
    rw [hf, Format.modesFit, ← han, hcontains] at hmodes
    cases hmodes
  refine recovers_of (opword_highReg_ea hd hfits (hf ▸ rfl) hfield)
    (Ext.stand_ea hstand Ext.stand_nil) ?_
  simp only [plan, hf, except_bind_eq_ok, except_pure_eq_ok]
  exact ⟨size, hsize, ea, hsrc, (), hbyte, _, Operands.requireDataReg_eq_ok.2 ⟨_, rfl, rfl⟩, rfl⟩

theorem recovers_dataToEa (hf : d.format = .dataToEa) : d.Recovers s name ops c.consumed := by
  simp only [hf, Format.read, Decoder.opcode_bind, Decoder.bind_pure_eq_ok] at h
  obtain ⟨ea, hea, ⟨⟩⟩ := h
  obtain ⟨hfield, hmode, hstand⟩ := Ea.of_readLow hea
  have hsize := hd.pickSize .long (hf ▸ List.mem_singleton_self _)
  have hdst : Operands.require d.mnemonic "destination" (some ea) d.dstModes = .ok ea :=
    require_dst hd hfits (hf ▸ rfl) hmode
  refine recovers_of (opword_highReg_ea hd hfits (hf ▸ rfl) hfield)
    (Ext.stand_ea hstand Ext.stand_nil) ?_
  simp only [plan, hf, except_bind_eq_ok, except_pure_eq_ok]
  exact ⟨.long, hsize, _, Operands.requireDataReg_eq_ok.2 ⟨_, rfl, rfl⟩, ea, hdst, rfl⟩

theorem recovers_eaToAddr (hf : d.format = .eaToAddr size) : d.Recovers s name ops c.consumed := by
  simp only [hf, Format.read, Decoder.opcode_bind, Decoder.bind_pure_eq_ok] at h
  obtain ⟨ea, hea, ⟨⟩⟩ := h
  obtain ⟨hfield, hmode, hstand⟩ := Ea.of_readLow hea
  have hsize := hd.pickSize size (hf ▸ List.mem_singleton_self _)
  have hsrc : Operands.require d.mnemonic "source" (some ea) d.srcModes = .ok ea :=
    require_src hd hfits (hf ▸ rfl) hmode
  refine recovers_of (opword_highReg_ea hd hfits (hf ▸ rfl) hfield)
    (Ext.stand_ea hstand Ext.stand_nil) ?_
  simp only [plan, hf, except_bind_eq_ok, except_pure_eq_ok]
  exact ⟨size, hsize, ea, hsrc, _, Operands.requireAddrReg_eq_ok.2 ⟨_, rfl, rfl⟩, rfl⟩

theorem recovers_immToData (hf : d.format = .immToData size) :
    d.Recovers s name ops c.consumed := by
  simp only [hf, Format.read, Decoder.opcode_bind, Decoder.bind_pure_eq_ok] at h
  obtain ⟨ea, hea, ⟨⟩⟩ := h
  obtain ⟨v, rfl, hstand⟩ := Ea.readImmediate_eq_ok hea
  have hsize := hd.pickSize size (hf ▸ List.mem_singleton_self _)
  refine recovers_of (opword_lowReg hd hfits (hf ▸ rfl)) (Ext.stand_ea hstand Ext.stand_nil) ?_
  simp only [plan, hf, except_bind_eq_ok, except_pure_eq_ok]
  exact ⟨size, hsize, v, Operands.requireImmediate_eq_ok.2 ⟨v, rfl, rfl⟩, _,
    Operands.requireDataReg_eq_ok.2 ⟨_, rfl, rfl⟩, rfl⟩

theorem recovers_quick {data : QuickData} (hf : d.format = .quick data) :
    d.Recovers s name ops c.consumed := by
  simp only [hf, Format.read, Decoder.opcode_bind, Decoder.bind_pure_eq_ok] at h
  obtain ⟨ea, hea, ⟨⟩⟩ := h
  obtain ⟨hfield, hmode, hstand⟩ := Ea.of_readLow hea
  have hsize := hd.pickSize .long (hf ▸ List.mem_singleton_self _)
  have hdst : Operands.require d.mnemonic "destination" (some ea) d.dstModes = .ok ea :=
    require_dst hd hfits (hf ▸ rfl) hmode
  have hdata := data.toField?_ofField (Field.toNat_get_lt (f := .quickData) (by decide) s.opcode)
  have hop := opword_highReg_ea hd hfits (hf ▸ rfl) hfield
  rw [Field.toUInt16_toUInt8_get (by decide) (by decide)] at hop
  refine recovers_of hop (Ext.stand_ea hstand Ext.stand_nil) ?_
  simp only [plan, hf, except_bind_eq_ok]
  refine ⟨.long, hsize, _, Operands.requireImmediate_eq_ok.2 ⟨_, rfl, rfl⟩, ?_⟩
  simp only [hdata, except_bind_eq_ok]
  exact ⟨ea, hdst, rfl⟩

theorem recovers_dataPair (hf : d.format = .dataPair) : d.Recovers s name ops c.consumed := by
  simp only [hf, Format.read, Decoder.opcode_bind, Decoder.pure_eq_ok] at h
  obtain ⟨⟨⟩, rfl⟩ := h
  have hsize := hd.pickSize .long (hf ▸ List.mem_singleton_self _)
  have hop := (((agree hd hfits 0x0E07 (hf ▸ rfl)).set_get (f := .highReg) (by decide)).set_get
    (f := .lowReg) (by decide)).eq_of_all
  rw [← Field.toUInt16_toUInt8_get (f := .highReg) (by decide) (by decide),
    ← Field.toUInt16_toUInt8_get (f := .lowReg) (by decide) (by decide)] at hop
  refine recovers_of hop Ext.stand_nil ?_
  simp only [plan, hf, except_bind_eq_ok, except_pure_eq_ok]
  exact ⟨.long, hsize, _, Operands.requireDataReg_eq_ok.2 ⟨_, rfl, rfl⟩, _,
    Operands.requireDataReg_eq_ok.2 ⟨_, rfl, rfl⟩, rfl⟩

theorem recovers_dataReg (hf : d.format = .dataReg size) : d.Recovers s name ops c.consumed := by
  simp only [hf, Format.read, Decoder.opcode_bind, Decoder.pure_eq_ok] at h
  obtain ⟨⟨⟩, rfl⟩ := h
  have hsize := hd.pickSize size (hf ▸ List.mem_singleton_self _)
  refine recovers_of (opword_lowReg hd hfits (hf ▸ rfl)) Ext.stand_nil ?_
  simp only [plan, hf, except_bind_eq_ok, except_pure_eq_ok]
  exact ⟨size, hsize, (), rfl, _, Operands.requireDataReg_eq_ok.2 ⟨_, rfl, rfl⟩, rfl⟩

theorem recovers_sizedEa {isDst : Bool} (hf : d.format = .sizedEa isDst) :
    d.Recovers s name ops c.consumed := by
  simp only [hf, Format.read, Decoder.opcode_bind] at h
  rcases hbits : Size.ofBits? (Field.size.get s.opcode) with _ | size
  · rw [hbits] at h
    exact absurd h Decoder.undecodable_ne_ok
  rw [hbits] at h
  rw [Decoder.bind_pure_eq_ok] at h
  obtain ⟨ea, hea, ⟨⟩⟩ := h
  obtain ⟨hfield, hmode, hstand⟩ := Ea.of_readLow hea
  have hsize := hd.pickSize size (by rw [hf]; cases size <;> simp [Format.sizes])
  refine recovers_of (opword_sizedEa hd hfits (hf ▸ rfl) hbits hfield)
    (Ext.stand_ea hstand Ext.stand_nil) ?_
  cases isDst with
  | true =>
    have hdst : Operands.require d.mnemonic "destination" (some ea) d.dstModes = .ok ea :=
      require_dst hd hfits (hf ▸ rfl) hmode
    have hbyte := refuseByte_sizedEa hd hfits d.mnemonic "destination" hf hbits hfield
      (Operands.require_eq_ok.1 hdst).2.1
    simp only [plan, hf, except_bind_eq_ok, except_pure_eq_ok, if_true]
    exact ⟨size, hsize, (), rfl, _, rfl, ea, hdst, (), hbyte, rfl⟩
  | false =>
    have hsrc : Operands.require d.mnemonic "source" (some ea) d.srcModes = .ok ea :=
      require_src hd hfits (hf ▸ rfl) hmode
    have hbyte := refuseByte_sizedEa hd hfits d.mnemonic "source" hf hbits hfield
      (Operands.require_eq_ok.1 hsrc).2.1
    simp only [plan, hf, except_bind_eq_ok, except_pure_eq_ok, Bool.false_eq_true, if_false]
    exact ⟨size, hsize, (), rfl, _, rfl, ea, hsrc, (), hbyte, rfl⟩

theorem recovers_shift (hf : d.format = .shift) : d.Recovers s name ops c.consumed := by
  simp only [hf, Format.read, Decoder.opcode_bind, Decoder.pure_eq_ok] at h
  obtain ⟨⟨⟩, rfl⟩ := h
  have hsize := hd.pickSize .long (hf ▸ List.mem_singleton_self _)
  have hop := ((((agree hd hfits 0x0E27 (hf ▸ rfl)).set_get (f := .lowReg) (by decide)).set_get
    (f := .shiftInReg) (by decide)).set_get (f := .shiftCount) (by decide)).eq_of_all
  rw [← Field.toUInt16_toUInt8_get (f := .lowReg) (by decide) (by decide)] at hop
  rcases eq_zero_or_eq_one (Field.toNat_get_lt (f := .shiftInReg) (by decide) s.opcode)
    with hreg | hreg
  · have hcount := QuickData.toField?_ofField .oneToEight
      (Field.toNat_get_lt (f := .shiftCount) (by decide) s.opcode)
    have himm : ¬ Field.shiftInReg.get s.opcode ≠ 0 := not_not.mpr hreg
    rw [hreg] at hop
    refine recovers_of hop Ext.stand_nil ?_
    simp only [plan, hf, except_bind_eq_ok, if_neg himm, hcount]
    exact ⟨.long, hsize, _, Operands.requireDataReg_eq_ok.2 ⟨_, rfl, rfl⟩, rfl⟩
  · have hdata : Field.shiftInReg.get s.opcode ≠ 0 := by rw [hreg]; decide
    rw [hreg, ← Field.toUInt16_toUInt8_get (f := .shiftCount) (by decide) (by decide)] at hop
    refine recovers_of hop Ext.stand_nil ?_
    simp only [plan, hf, except_bind_eq_ok, if_pos hdata]
    exact ⟨.long, hsize, _, Operands.requireDataReg_eq_ok.2 ⟨_, rfl, rfl⟩, rfl⟩

theorem recovers_bitInReg (hf : d.format = .bitInReg) : d.Recovers s name ops c.consumed := by
  simp only [hf, Format.read, Decoder.opcode_bind, Decoder.bind_pure_eq_ok] at h
  obtain ⟨ea, hea, ⟨⟩⟩ := h
  obtain ⟨hfield, hmode, hstand⟩ := Ea.of_readLow hea
  have hdst : Operands.require d.mnemonic "destination" (some ea) d.dstModes = .ok ea :=
    require_dst hd hfits (hf ▸ rfl) hmode
  refine recovers_of (opword_highReg_ea hd hfits (hf ▸ rfl) hfield)
    (Ext.stand_ea hstand Ext.stand_nil) ?_
  simp only [plan, hf, except_bind_eq_ok, except_pure_eq_ok]
  exact ⟨_, Operands.requireDataReg_eq_ok.2 ⟨_, rfl, rfl⟩, ea, hdst, (),
    Operands.checkBitSize_eq_ok.2 fun _ h => (Option.some.inj h).symm, rfl⟩

theorem recovers_bitInWord (hf : d.format = .bitInWord) : d.Recovers s name ops c.consumed := by
  simp only [hf, Format.read, Decoder.opcode_bind, Decoder.bind_eq_ok, Decoder.nextWord_eq_ok] at h
  obtain ⟨bit, _, ⟨hbit, rfl⟩, h⟩ := h
  split at h
  · exact absurd h Decoder.reserved_ne_ok
  rename_i hsmall
  rw [Decoder.bind_pure_eq_ok] at h
  obtain ⟨ea, hea, ⟨⟩⟩ := h
  obtain ⟨hfield, hmode, hstand⟩ := Ea.of_readLow hea
  have hdst : Operands.require d.mnemonic "destination" (some ea) d.dstModes = .ok ea :=
    require_dst hd hfits (hf ▸ rfl) hmode
  have hrange : ¬ bit.toUInt32 > 0xFF := by
    rw [gt_iff_lt, UInt32.lt_iff_toNat_lt, UInt16.toNat_toUInt32]
    rwa [gt_iff_lt, UInt16.lt_iff_toNat_lt] at hsmall
  have hpieces : Ext.Stand s [.word bit.toUInt32.toUInt16, .ea ea .byte] 0 c.consumed := by
    rw [UInt16.toUInt16_toUInt32]
    exact Ext.stand_word hbit (Ext.stand_ea hstand Ext.stand_nil)
  refine recovers_of (opword_ea hd hfits (hf ▸ rfl) hfield) hpieces ?_
  simp only [plan, hf, except_bind_eq_ok]
  refine ⟨_, Operands.requireImmediate_eq_ok.2 ⟨_, rfl, rfl⟩, ?_⟩
  simp only [if_neg hrange, except_bind_eq_ok]
  exact ⟨ea, hdst, (), Operands.checkBitSize_eq_ok.2 fun _ h => (Option.some.inj h).symm,
    rfl⟩

theorem recovers_mulLong (hf : d.format = .mulLong) : d.Recovers s name ops c.consumed := by
  simp only [hf, Format.read, Decoder.opcode_bind, Decoder.bind_eq_ok, Decoder.nextWord_eq_ok] at h
  obtain ⟨ext, _, ⟨hext, rfl⟩, h⟩ := h
  split at h
  · exact absurd h Decoder.reserved_ne_ok
  rename_i hproduct
  split at h
  · exact absurd h Decoder.reserved_ne_ok
  rename_i hrest
  rw [Decoder.bind_pure_eq_ok] at h
  obtain ⟨ea, hea, ⟨⟩⟩ := h
  obtain ⟨hfield, hmode, hstand⟩ := Ea.of_readLow hea
  have hsize := hd.pickSize .long (hf ▸ List.mem_singleton_self _)
  have hsrc : Operands.require d.mnemonic "source" (some ea) d.srcModes = .ok ea :=
    require_src hd hfits (hf ▸ rfl) hmode
  have hzero : AgreeOn (0x0400 ||| ~~~0x7C00) 0 ext :=
    (AgreeOn.zero_of_and (not_not.mp hproduct)).or (AgreeOn.zero_of_and (not_not.mp hrest))
  have hword := ((hzero.set_get (f := .quotientReg) (by decide)).set_get (f := .signed)
    (by decide)).eq_of_all
  rw [← Field.toUInt16_toUInt8_get (f := .quotientReg) (by decide) (by decide)] at hword
  have hsigned : (Text.lower (if Field.signed.get ext ≠ 0 then "muls" else "mulu").toList ==
      "muls".toList).toUInt16 = Field.signed.get ext := by
    rcases eq_zero_or_eq_one (Field.toNat_get_lt (f := .signed) (by decide) ext) with hs | hs
    · rw [hs]
      decide
    · rw [hs]
      decide
  rw [← hsigned] at hword
  refine recovers_of (opword_ea hd hfits (hf ▸ rfl) hfield)
    (Ext.stand_word (hword ▸ hext) (Ext.stand_ea hstand Ext.stand_nil)) ?_
  simp only [plan, hf, except_bind_eq_ok, except_pure_eq_ok]
  exact ⟨.long, hsize, ea, hsrc, _, Operands.requireDataReg_eq_ok.2 ⟨_, rfl, rfl⟩, rfl⟩

theorem recovers_divLong (hf : d.format = .divLong) : d.Recovers s name ops c.consumed := by
  simp only [hf, Format.read, Decoder.opcode_bind, Decoder.bind_eq_ok, Decoder.nextWord_eq_ok] at h
  obtain ⟨ext, _, ⟨hext, rfl⟩, h⟩ := h
  split at h
  · exact absurd h Decoder.reserved_ne_ok
  rename_i hdividend
  split at h
  · exact absurd h Decoder.reserved_ne_ok
  rename_i hrest
  rw [Decoder.bind_eq_ok] at h
  obtain ⟨ea, c₁, hea, h⟩ := h
  obtain ⟨hfield, hmode, hstand⟩ := Ea.of_readLow hea
  have hsize := hd.pickSize .long (hf ▸ List.mem_singleton_self _)
  have hsrc : Operands.require d.mnemonic "source" (some ea) d.srcModes = .ok ea :=
    require_src hd hfits (hf ▸ rfl) hmode
  have hzero : AgreeOn (0x0400 ||| ~~~0x7C07) 0 ext :=
    (AgreeOn.zero_of_and (not_not.mp hdividend)).or (AgreeOn.zero_of_and (not_not.mp hrest))
  have hword := (((hzero.set_get (f := .quotientReg) (by decide)).set_get (f := .remainderReg)
    (by decide)).set_get (f := .signed) (by decide)).eq_of_all
  rw [← Field.toUInt16_toUInt8_get (f := .quotientReg) (by decide) (by decide),
    ← Field.toUInt16_toUInt8_get (f := .remainderReg) (by decide) (by decide),
    ← toUInt16_ne_zero (Field.toNat_get_lt (f := .signed) (by decide) ext)] at hword
  obtain ⟨hdivs, hrems, hdiv, hrem⟩ := division_names (Field.signed.get ext)
  split at h
  · rename_i hsame
    rw [Decoder.pure_eq_ok] at h
    obtain ⟨⟨⟩, rfl⟩ := h
    rw [← hsame, ← hdivs] at hword
    refine recovers_of (opword_ea hd hfits (hf ▸ rfl) hfield)
      (Ext.stand_word (hword ▸ hext) (Ext.stand_ea hstand Ext.stand_nil)) ?_
    simp only [plan, hf, except_bind_eq_ok, except_pure_eq_ok, hdiv, Bool.false_eq_true, if_false]
    exact ⟨.long, hsize, ea, hsrc, _, Operands.requireDataReg_eq_ok.2 ⟨_, rfl, rfl⟩, _, rfl, rfl⟩
  · rename_i hdiffer
    rw [Decoder.pure_eq_ok] at h
    obtain ⟨⟨⟩, rfl⟩ := h
    rw [← hrems] at hword
    refine recovers_of (opword_ea hd hfits (hf ▸ rfl) hfield)
      (Ext.stand_word (hword ▸ hext) (Ext.stand_ea hstand Ext.stand_nil)) ?_
    simp only [plan, hf, except_bind_eq_ok, except_pure_eq_ok, hrem, if_true]
    exact ⟨.long, hsize, ea, hsrc, _,
      Operands.requirePair_eq_ok.2 ⟨_, _, rfl, Ne.symm hdiffer, rfl⟩, rfl⟩

end Formats

end Definition

end ColdFire
