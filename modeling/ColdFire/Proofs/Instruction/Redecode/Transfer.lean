import ColdFire.Proofs.Instruction.Redecode.Basic

namespace ColdFire

namespace Definition

variable {d : Definition} {s : WordSource} {size : Size} {n : Nat}

theorem of_move {immToDisp : Bool} {srcMode srcReg dstMode dstReg w : UInt16}
    (hf : d.format = .move size immToDisp) (hsrcMode : srcMode.toNat < 2 ^ 3)
    (hsrcReg : srcReg.toNat < 2 ^ 3) (hdstMode : dstMode.toNat < 2 ^ 3)
    (hdstReg : dstReg.toNat < 2 ^ 3)
    (hop : Field.moveReg.set (Field.moveMode.set (Field.eaReg.set (Field.eaMode.set d.opcode srcMode)
      srcReg) dstMode) dstReg = w) :
    AgreeOn (~~~d.format.operandMask) d.opcode w ∧ Field.eaMode.get w = srcMode ∧
      Field.eaReg.get w = srcReg ∧ Field.moveMode.get w = dstMode ∧
      Field.moveReg.get w = dstReg := by
  have hsrcMode : srcMode.toNat < 2 ^ Field.eaMode.width := hsrcMode
  have hsrcReg : srcReg.toNat < 2 ^ Field.eaReg.width := hsrcReg
  have hdstMode : dstMode.toNat < 2 ^ Field.moveMode.width := hdstMode
  have hdstReg : dstReg.toNat < 2 ^ Field.moveReg.width := hdstReg
  have hmask : d.format.operandMask = 0x0FFF := by rw [hf]; rfl
  rw [← hop, AgreeOn, hmask]
  simp (disch := first | decide | assumption) only [Field.set_and_of_disjoint,
    Field.get_set_of_disjoint, Field.get_set_of_lt, and_self]

theorem of_ea_highReg {ea : Ea} {r : UInt8} {w : UInt16} (hd : d.Regular) (hf : d.format = .lea)
    (hr : r < 8) (hea : ea.RegistersExist) (hne : ea.modes ≠ .none)
    (hop : Field.highReg.set (d.opcode ||| ea.lowField) r.toUInt16 = w) :
    AgreeOn (~~~d.format.operandMask) d.opcode w ∧ Field.highReg.get w = r.toUInt16 ∧
      ea.InLow w := by
  have hr : r.toUInt16.toNat < 2 ^ Field.highReg.width := toNat_toUInt16_lt hr
  have hroom : d.opcode &&& 0x003F = 0 := opcode_and hd (by rw [hf]; decide)
  have hlow := Ea.inLow_or hea hne hroom
  have hmode : Field.eaMode.get w = Field.eaMode.get (d.opcode ||| ea.lowField) := by
    rw [← hop, Field.get_set_of_disjoint (by decide) (by decide) (by decide)]
  have hreg : Field.eaReg.get w = Field.eaReg.get (d.opcode ||| ea.lowField) := by
    rw [← hop, Field.get_set_of_disjoint (by decide) (by decide) (by decide)]
  have hmask : d.format.operandMask = 0x0E3F := by rw [hf]; rfl
  refine ⟨?_, ?_, ?_⟩
  · rw [AgreeOn, ← hop, hmask, Field.set_and_of_disjoint (by decide) (by decide),
      Ea.or_lowField_and hea hne hroom (by decide)]
  · rw [← hop, Field.get_set_of_lt (by decide) _ hr]
  · exact ⟨by rw [hmode, hreg]; exact hlow.field, by rw [hmode, hreg]; exact hlow.mode⟩

theorem of_highReg_flag_ea {ea : Ea} {r : UInt8} {w : UInt16} (hd : d.Regular)
    (hf : d.format = .moveExtend) (hr : r < 8) (hea : ea.RegistersExist) (hne : ea.modes ≠ .none)
    (hop : Field.highReg.set d.opcode r.toUInt16 ||| (if size = .word then 0x0040 else 0) |||
      ea.lowField = w) :
    AgreeOn (~~~d.format.operandMask) d.opcode w ∧ Field.highReg.get w = r.toUInt16 ∧
      w &&& 0x0040 = (if size = .word then 0x0040 else 0) ∧ ea.InLow w := by
  have hr : r.toUInt16.toNat < 2 ^ Field.highReg.width := toNat_toUInt16_lt hr
  have hmask : d.format.operandMask = 0x0E7F := by rw [hf]; rfl
  generalize hflag : (if size = .word then 0x0040 else 0 : UInt16) = flag at hop ⊢
  have hflag : flag = 0x0040 ∨ flag = 0 := by
    rw [← hflag]
    exact ite_eq_or_eq ..
  have hhigh (m : UInt16) (hm : 0x0E00 &&& m = 0) :
      Field.highReg.set d.opcode r.toUInt16 &&& m = d.opcode &&& m :=
    Field.set_and_of_disjoint (f := .highReg) (by decide) hm _ _
  have hbit : Field.highReg.set d.opcode r.toUInt16 &&& 0x0040 = 0 := by
    rw [hhigh _ (by decide)]
    exact opcode_and hd (by rw [hmask]; decide)
  have hroom : (Field.highReg.set d.opcode r.toUInt16 ||| flag) &&& 0x003F = 0 := by
    refine or_and_eq_zero ?_ (by rcases hflag with rfl | rfl <;> decide)
    rw [hhigh _ (by decide)]
    exact opcode_and hd (by rw [hmask]; decide)
  rw [← hop]
  refine ⟨?_, ?_, ?_, Ea.inLow_or hea hne hroom⟩
  · have hclear : flag &&& ~~~0x0E7F = 0 := by rcases hflag with rfl | rfl <;> decide
    rw [AgreeOn, hmask, Ea.or_lowField_and hea hne hroom (by decide), or_and_of_and_eq_zero hclear,
      hhigh _ (by decide)]
  · have hclear : flag &&& Field.highReg.mask = 0 := by rcases hflag with rfl | rfl <;> decide
    rw [Ea.get_or_lowField hea hne hroom (by decide) (by decide),
      Field.get_congr (by decide) (or_and_of_and_eq_zero hclear), Field.get_set_of_lt (by decide) _ hr]
  · have hkeep : flag &&& 0x0040 = flag := by rcases hflag with rfl | rfl <;> decide
    rw [Ea.or_lowField_and hea hne hroom (by decide), UInt16.or_comm, or_and_of_and_eq_zero hbit,
      hkeep]

section Formats

variable (hd : d.Regular) {name : String} {ops : Operands} (hregs : ops.RegistersExist)
  {e : Encoding} (h : d.plan name ops = .ok e) (hop : e.opword = s.opcode)
  (hstand : Ext.Stand s e.ext 0 n)

include hd hregs h hop hstand

theorem rereads_move {immToDisp : Bool} (hf : d.format = .move size immToDisp) :
    d.Rereads s name ops n := by
  simp only [plan, hf, except_bind_eq_ok, Operands.require_eq_ok,
    Operands.refuseByteOfAddr_eq_ok] at h
  obtain ⟨_, hsize, src, ⟨hsrc, hsrcIn, hsrcNe⟩, dst, ⟨hdst, hdstIn, hdstNe⟩, _, hbyte, h⟩ := h
  obtain ⟨rfl, hsame⟩ := hd.of_pickSize_single size hsize (hf ▸ rfl)
  obtain ⟨hpair, h⟩ := except_guard_eq_ok.1 h
  obtain rfl := except_pure_eq_ok.1 h
  have hsrcRegs := hregs.1 src hsrc
  have hdstRegs := hregs.2 dst hdst
  obtain ⟨srcMode, srcReg, hsrcField, hm, hr, hsrcMode⟩ := Ea.field_of_modes hsrcRegs hsrcNe
  obtain ⟨dstMode, dstReg, hdstField, hm', hr', hdstMode⟩ := Ea.field_of_modes hdstRegs hdstNe
  rw [hsrcField, hdstField] at hop
  obtain ⟨hagree, rfl, rfl, rfl, rfl⟩ := of_move hf hm hr hm' hr' hop
  -- the words of the destination begin where those of the source end
  obtain ⟨k, ⟨ws, hws, hholds, hk⟩, hstand⟩ := Ext.of_stand_ea_cons hstand
  obtain ⟨ws', hws', hholds', hn⟩ := Ext.of_stand_ea hstand
  obtain ⟨mark, hread⟩ := Ea.readLow_of_field (c := .start) hsrcRegs hsrcField hws hholds
  rw [hk] at hholds' hn
  obtain ⟨mark', hread'⟩ := Ea.read_of_field (c := ⟨_, mark⟩) hdstRegs hdstField hws' hholds'
  rw [← hn] at hread'
  have hfits : d.fits s.opcode = true := by
    refine fits_of hd hagree (by rw [hf]; exact List.forall_mem_nil _) ?_
    rw [hf]
    refine ⟨?_, ?_⟩
    · rw [lowModeIn, hsrcMode]
      exact hsrcIn
    · rw [moveModeIn, hdstMode]
      exact hdstIn
  have haccepts : d.format.accepts s.opcode = true := by
    rw [hf, Format.accepts, hsrcMode, hdstMode]
    cases immToDisp with
    | true =>
      have hmodes := hd.modes
      rw [hf, Format.modesFit, decide_eq_true_eq] at hmodes
      rw [hmodes.1] at hsrcIn
      rw [hmodes.2] at hdstIn
      exact decide_eq_true ⟨Ea.modes_eq_imm hsrcIn hsrcNe, Ea.modes_eq_disp hdstIn hdstNe⟩
    | false =>
      have hpair : Modes.movePair src.modes dst.modes = true := by simpa using hpair
      change (!decide (size = .byte ∧ src.modes = .an) &&
        Modes.movePair src.modes dst.modes) = true
      rw [decide_eq_false hbyte, hpair]
      rfl
  have hread : d.format.read d.mnemonic s .start =
      .ok (d.mnemonic, ⟨some size, some (src.reduced size), some (dst.reduced size)⟩)
        ⟨n, mark'⟩ := by
    rw [hf]
    simp only [Format.read, Decoder.opcode_bind, Decoder.bind_eq_ok, Decoder.pure_eq_ok]
    exact ⟨_, _, hread, _, _, hread', rfl, rfl⟩
  exact rereads_of hfits haccepts (hf ▸ rfl) hread
    ⟨by rw [hsrc, hf]; rfl, by rw [hdst, hf]; rfl, hsame⟩

theorem rereads_moveq (hf : d.format = .moveq) : d.Rereads s name ops n := by
  simp only [plan, hf, except_bind_eq_ok, Operands.requireImmediate_eq_ok] at h
  obtain ⟨_, hsize, _, ⟨v, hsrc, rfl⟩, h⟩ := h
  obtain ⟨rfl, hsame⟩ := hd.of_pickSize_single .long hsize (hf ▸ rfl)
  obtain ⟨hrange, h⟩ := except_guard_eq_ok.1 h
  simp only [except_bind_eq_ok, except_pure_eq_ok, Operands.requireDataReg_eq_ok] at h
  obtain ⟨_, ⟨r, hdst, rfl⟩, rfl⟩ := h
  obtain rfl : 0 = n := hstand
  have hr : r.toUInt16.toNat < 2 ^ Field.highReg.width := toNat_toUInt16_lt (hregs.2 _ hdst)
  have hv : v.toUInt8.toUInt16.toNat < 2 ^ Field.byteData.width := v.toUInt8.toNat_lt
  have hop : Field.byteData.set (Field.highReg.set d.opcode r.toUInt16) v.toUInt8.toUInt16 =
    s.opcode := hop
  have hagree : AgreeOn (~~~d.format.operandMask) d.opcode s.opcode := by
    rw [AgreeOn, ← hop, hf]
    change _ = _ &&& ~~~0x0EFF
    rw [Field.set_and_of_disjoint (by decide) (by decide),
      Field.set_and_of_disjoint (by decide) (by decide)]
    rfl
  have hdata : Field.byteData.get s.opcode = v.toUInt8.toUInt16 := by
    rw [← hop, Field.get_set_of_lt (by decide) _ hv]
  have hhigh : Field.highReg.get s.opcode = r.toUInt16 := by
    rw [← hop, Field.get_set_of_disjoint (by decide) (by decide) (by decide),
      Field.get_set_of_lt (by decide) _ hr]
  have hvalue : Size.byte.signExtend v.toUInt8.toUInt16.toUInt32 = v := by
    have hlow : v.toUInt8.toUInt16.toUInt32.toUInt8 = v.toUInt8 := by
      rw [UInt16.toUInt8_toUInt32, UInt8.toUInt8_toUInt16]
    rw [Size.signExtend, hlow]
    exact Size.signExtend_byte_of_range hrange
  have hfits := fits_of_none hd hagree (hf ▸ rfl) (hf ▸ rfl)
  have hread : d.format.read d.mnemonic s .start =
      .ok (d.mnemonic, ⟨some .long, some (.immediate v), some (.dataReg r)⟩) ⟨0, 0⟩ := by
    rw [hf]
    simp only [Format.read, Decoder.opcode_bind, Decoder.pure_eq_ok]
    exact ⟨by rw [hdata, hhigh, hvalue, UInt8.toUInt8_toUInt16], rfl⟩
  refine rereads_of hfits (hf ▸ rfl) (hf ▸ rfl) hread ⟨?_, by rw [hdst, hf]; rfl, hsame⟩
  rw [hsrc, hf]
  exact congrArg some (Eq.symm Ea.reduced_long)

theorem rereads_moveExtend (hf : d.format = .moveExtend) : d.Rereads s name ops n := by
  simp only [plan, hf, except_bind_eq_ok, except_pure_eq_ok, Operands.require_eq_ok,
    Operands.requireDataReg_eq_ok] at h
  obtain ⟨size, hsize, ea, ⟨hsrc, hin, hne⟩, _, ⟨r, hdst, rfl⟩, rfl⟩ := h
  obtain ⟨hmem, hsame⟩ := hd.of_pickSize hsize
  have hea := hregs.1 ea hsrc
  obtain ⟨hagree, hhigh, hflag, hlow⟩ :=
    of_highReg_flag_ea hd hf (hregs.2 _ hdst) hea hne hop
  obtain ⟨mark, hread⟩ := Ea.readLow_of_standsIn (c := .start) hea hlow (Ext.of_stand_ea hstand)
  have hfits := fits_of_src hd hagree (hf ▸ rfl) (hf ▸ rfl) hlow hin
  have hsizes : (if s.opcode &&& 0x0040 ≠ 0 then Size.word else .byte) = size := by
    rw [hf] at hmem
    rw [hflag]
    cases size with
    | byte | word => rfl
    | long => exact absurd hmem (by decide)
  have hread : d.format.read d.mnemonic s .start =
      .ok (d.mnemonic, ⟨some size, some (ea.reduced size), some (.dataReg r)⟩) ⟨n, mark⟩ := by
    rw [hf]
    simp only [Format.read, Decoder.opcode_bind, Decoder.bind_eq_ok, Decoder.pure_eq_ok]
    rw [← hsizes] at hread ⊢
    exact ⟨_, _, hread, by rw [hhigh, UInt8.toUInt8_toUInt16], rfl⟩
  exact rereads_of hfits (hf ▸ rfl) (hf ▸ rfl) hread
    ⟨by rw [hsrc, hf]; rfl, by rw [hdst, hf]; rfl,
      fun s t hs ht => (hsame s hs).trans (Option.some.inj ht)⟩

theorem rereads_listToEa (hf : d.format = .listToEa) : d.Rereads s name ops n := by
  simp only [plan, hf, except_bind_eq_ok, except_pure_eq_ok, Operands.require_eq_ok,
    Operands.requireList_eq_ok] at h
  obtain ⟨_, hsize, ea, ⟨hdst, hin, hne⟩, mask, hsrc, rfl⟩ := h
  obtain ⟨rfl, hsame⟩ := hd.of_pickSize_single .long hsize (hf ▸ rfl)
  obtain ⟨hword, hstand⟩ := Ext.of_stand_word hstand
  have hea := hregs.2 ea hdst
  obtain ⟨hagree, hlow⟩ := of_ea hd (hf ▸ rfl) hea hne hop
  obtain ⟨mark, hread⟩ := Ea.readLow_of_standsIn (c := ⟨1, 0⟩) hea hlow (Ext.of_stand_ea hstand)
  have hfits := fits_of_dst hd hagree (hf ▸ rfl) (hf ▸ rfl) hlow hin
  have hread : d.format.read d.mnemonic s .start =
      .ok (d.mnemonic, ⟨some .long, some (.regList mask), some (ea.reduced .long)⟩) ⟨n, mark⟩ := by
    rw [hf]
    simp only [Format.read, Decoder.opcode_bind, Decoder.bind_eq_ok, Decoder.nextWord_eq_ok,
      Decoder.pure_eq_ok]
    exact ⟨_, _, ⟨hword, rfl⟩, _, _, hread, rfl, rfl⟩
  exact rereads_of hfits (hf ▸ rfl) (hf ▸ rfl) hread
    ⟨by rw [hsrc, hf]; rfl, by rw [hdst, hf]; rfl, hsame⟩

theorem rereads_eaToList (hf : d.format = .eaToList) : d.Rereads s name ops n := by
  simp only [plan, hf, except_bind_eq_ok, except_pure_eq_ok, Operands.require_eq_ok,
    Operands.requireList_eq_ok] at h
  obtain ⟨_, hsize, ea, ⟨hsrc, hin, hne⟩, mask, hdst, rfl⟩ := h
  obtain ⟨rfl, hsame⟩ := hd.of_pickSize_single .long hsize (hf ▸ rfl)
  obtain ⟨hword, hstand⟩ := Ext.of_stand_word hstand
  have hea := hregs.1 ea hsrc
  obtain ⟨hagree, hlow⟩ := of_ea hd (hf ▸ rfl) hea hne hop
  obtain ⟨mark, hread⟩ := Ea.readLow_of_standsIn (c := ⟨1, 0⟩) hea hlow (Ext.of_stand_ea hstand)
  have hfits := fits_of_src hd hagree (hf ▸ rfl) (hf ▸ rfl) hlow hin
  have hread : d.format.read d.mnemonic s .start =
      .ok (d.mnemonic, ⟨some .long, some (ea.reduced .long), some (.regList mask)⟩) ⟨n, mark⟩ := by
    rw [hf]
    simp only [Format.read, Decoder.opcode_bind, Decoder.bind_eq_ok, Decoder.nextWord_eq_ok,
      Decoder.pure_eq_ok]
    exact ⟨_, _, ⟨hword, rfl⟩, _, _, hread, rfl, rfl⟩
  exact rereads_of hfits (hf ▸ rfl) (hf ▸ rfl) hread
    ⟨by rw [hsrc, hf]; rfl, by rw [hdst, hf]; rfl, hsame⟩

theorem rereads_lea (hf : d.format = .lea) : d.Rereads s name ops n := by
  simp only [plan, hf, except_bind_eq_ok, except_pure_eq_ok, Operands.require_eq_ok,
    Operands.requireAddrReg_eq_ok] at h
  obtain ⟨ea, ⟨hsrc, hin, hne⟩, _, ⟨r, hdst, rfl⟩, rfl⟩ := h
  have hea := hregs.1 ea hsrc
  obtain ⟨hagree, hhigh, hlow⟩ := of_ea_highReg hd hf (hregs.2 _ hdst) hea hne hop
  obtain ⟨mark, hread⟩ := Ea.readLow_of_standsIn (c := .start) hea hlow (Ext.of_stand_ea hstand)
  have hfits := fits_of_src hd hagree (hf ▸ rfl) (hf ▸ rfl) hlow hin
  have hread : d.format.read d.mnemonic s .start =
      .ok (d.mnemonic, ⟨none, some (ea.reduced .long), some (.addrReg r)⟩) ⟨n, mark⟩ := by
    rw [hf]
    simp only [Format.read, Decoder.opcode_bind, Decoder.bind_eq_ok, Decoder.pure_eq_ok]
    exact ⟨_, _, hread, by rw [hhigh, UInt8.toUInt8_toUInt16], rfl⟩
  exact rereads_of hfits (hf ▸ rfl) (hf ▸ rfl) hread
    ⟨by rw [hsrc, hf]; rfl, by rw [hdst, hf]; rfl, Operands.size_of_none rfl⟩

theorem rereads_pea (hf : d.format = .pea) : d.Rereads s name ops n := by
  simp only [plan, hf, except_bind_eq_ok, except_pure_eq_ok, Operands.require_eq_ok,
    Operands.forbid_eq_ok] at h
  obtain ⟨ea, ⟨hsrc, hin, hne⟩, _, hdst, rfl⟩ := h
  have hea := hregs.1 ea hsrc
  obtain ⟨hagree, hlow⟩ := of_ea hd (hf ▸ rfl) hea hne hop
  obtain ⟨mark, hread⟩ := Ea.readLow_of_standsIn (c := .start) hea hlow (Ext.of_stand_ea hstand)
  have hfits := fits_of_src hd hagree (hf ▸ rfl) (hf ▸ rfl) hlow hin
  have hread : d.format.read d.mnemonic s .start =
      .ok (d.mnemonic, ⟨none, some (ea.reduced .long), none⟩) ⟨n, mark⟩ := by
    rw [hf]
    simp only [Format.read, Decoder.opcode_bind, Decoder.bind_eq_ok, Decoder.pure_eq_ok]
    exact ⟨_, _, hread, rfl, rfl⟩
  exact rereads_of hfits (hf ▸ rfl) (hf ▸ rfl) hread
    ⟨by rw [hsrc, hf]; rfl, by rw [hdst]; rfl, Operands.size_of_none rfl⟩

theorem rereads_jump (hf : d.format = .jump) : d.Rereads s name ops n := by
  simp only [plan, hf, except_bind_eq_ok, except_pure_eq_ok, Operands.require_eq_ok,
    Operands.forbid_eq_ok] at h
  obtain ⟨ea, ⟨hsrc, hin, hne⟩, _, hdst, rfl⟩ := h
  have hea := hregs.1 ea hsrc
  obtain ⟨hagree, hlow⟩ := of_ea hd (hf ▸ rfl) hea hne hop
  obtain ⟨mark, hread⟩ := Ea.readLow_of_standsIn (c := .start) hea hlow (Ext.of_stand_ea hstand)
  have hfits := fits_of_src hd hagree (hf ▸ rfl) (hf ▸ rfl) hlow hin
  have hread : d.format.read d.mnemonic s .start =
      .ok (d.mnemonic, ⟨none, some (ea.reduced .long), none⟩) ⟨n, mark⟩ := by
    rw [hf]
    simp only [Format.read, Decoder.opcode_bind, Decoder.bind_eq_ok, Decoder.pure_eq_ok]
    exact ⟨_, _, hread, rfl, rfl⟩
  exact rereads_of hfits (hf ▸ rfl) (hf ▸ rfl) hread
    ⟨by rw [hsrc, hf]; rfl, by rw [hdst]; rfl, Operands.size_of_none rfl⟩

theorem rereads_link (hf : d.format = .link) : d.Rereads s name ops n := by
  simp only [plan, hf, except_bind_eq_ok, Operands.requireAddrReg_eq_ok,
    Operands.requireImmediate_eq_ok] at h
  obtain ⟨_, hsize, _, ⟨r, hsrc, rfl⟩, _, ⟨v, hdst, rfl⟩, h⟩ := h
  obtain ⟨rfl, hsame⟩ := hd.of_pickSize_single .word hsize (hf ▸ rfl)
  obtain ⟨-, h⟩ := except_guard_eq_ok.1 h
  obtain rfl := except_pure_eq_ok.1 h
  obtain ⟨hword, hn⟩ := Ext.of_stand_word hstand
  obtain ⟨hagree, hreg⟩ := of_lowReg (hf ▸ rfl) (hregs.1 _ hsrc) hop
  have hn : 1 = n := hn
  have himm : (Ea.immediate v).StandsIn .word s 0 n :=
    ⟨[v.toUInt16], rfl, ⟨hword, trivial⟩, hn.symm⟩
  have hread := Ea.readImmediate_of_standsIn (c := .start) himm
  have hfits := fits_of_none hd hagree (hf ▸ rfl) (hf ▸ rfl)
  have hread : d.format.read d.mnemonic s .start =
      .ok (d.mnemonic, ⟨some .word, some (.addrReg r), some ((Ea.immediate v).reduced .word)⟩)
        ⟨n, 0⟩ := by
    rw [hf]
    simp only [Format.read, Decoder.opcode_bind, Decoder.bind_eq_ok, Decoder.pure_eq_ok]
    exact ⟨_, _, hread, by rw [hreg], rfl⟩
  exact rereads_of hfits (hf ▸ rfl) (hf ▸ rfl) hread
    ⟨by rw [hsrc, hf]; rfl, by rw [hdst, hf]; rfl, hsame⟩

theorem rereads_unlk (hf : d.format = .unlk) : d.Rereads s name ops n := by
  simp only [plan, hf, except_bind_eq_ok, except_pure_eq_ok, Operands.forbid_eq_ok,
    Operands.requireAddrReg_eq_ok] at h
  obtain ⟨_, hsrc, _, ⟨r, hdst, rfl⟩, rfl⟩ := h
  obtain rfl : 0 = n := hstand
  obtain ⟨hagree, hreg⟩ := of_lowReg (hf ▸ rfl) (hregs.2 _ hdst) hop
  have hfits := fits_of_none hd hagree (hf ▸ rfl) (hf ▸ rfl)
  have hread : d.format.read d.mnemonic s .start =
      .ok (d.mnemonic, ⟨none, none, some (.addrReg r)⟩) ⟨0, 0⟩ := by
    rw [hf]
    simp only [Format.read, Decoder.opcode_bind, Decoder.pure_eq_ok]
    exact ⟨by rw [hreg], rfl⟩
  exact rereads_of hfits (hf ▸ rfl) (hf ▸ rfl) hread
    ⟨by rw [hsrc]; rfl, by rw [hdst, hf]; rfl, Operands.size_of_none rfl⟩

end Formats

end Definition

end ColdFire
