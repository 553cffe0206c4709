import ColdFire.Proofs.Instruction.Redecode.Basic

namespace ColdFire

namespace QuickData

theorem ofField_of_toField? (q : QuickData) {v : UInt32} {x : UInt16} (h : q.toField? v = some x) :
    x.toNat < 2 ^ 3 ∧ q.ofField x = v := by
  unfold toField? at h
  split at h
  · rename_i hrange
    cases h
    rw [UInt32.le_iff_toNat_le, UInt32.le_iff_toNat_le] at hrange
    change 1 ≤ v.toNat ∧ v.toNat ≤ 7 at hrange
    have htoNat : v.toUInt16.toNat = v.toNat := by
      rw [UInt32.toNat_toUInt16]
      omega
    have hne : v.toUInt16 ≠ 0 := by
      intro hzero
      rw [hzero] at htoNat
      change 0 = _ at htoNat
      omega
    have hback : v.toUInt16.toUInt32 = v := by
      rw [← UInt32.toNat_inj, UInt16.toNat_toUInt32, htoNat]
    refine ⟨by rw [htoNat]; change v.toNat < 8; omega, ?_⟩
    cases q <;> simp only [ofField, if_neg hne, hback]
  · cases q with
    | oneToEight =>
      obtain ⟨rfl, hx⟩ := Option.ite_none_right_eq_some.mp h
      cases hx
      exact ⟨by decide, rfl⟩
    | minusOne =>
      obtain ⟨rfl, hx⟩ := Option.ite_none_right_eq_some.mp h
      cases hx
      exact ⟨by decide, rfl⟩

end QuickData

theorem Ea.bitSize_reduced {ea : Ea} {size : Size} : (ea.reduced size).bitSize = ea.bitSize := by
  cases ea <;> rfl

namespace Definition

variable {d : Definition} {s : WordSource} {size : Size} {n : Nat}

theorem of_size_ea {ea : Ea} {w : UInt16} (hd : d.Regular) (hmask : d.format.operandMask = 0x00FF)
    (hea : ea.RegistersExist) (hne : ea.modes ≠ .none)
    (hop : Field.size.set d.opcode size.toBits ||| ea.lowField = w) :
    AgreeOn (~~~d.format.operandMask) d.opcode w ∧ Field.size.get w = size.toBits ∧
      ea.InLow w := by
  have hbits : size.toBits.toNat < 2 ^ Field.size.width := by cases size <;> decide
  have hroom : Field.size.set d.opcode size.toBits &&& 0x003F = 0 := by
    rw [Field.set_and_of_disjoint (by decide) (by decide)]
    exact opcode_and hd (by rw [hmask]; decide)
  rw [← hop]
  refine ⟨?_, ?_, Ea.inLow_or hea hne hroom⟩
  · rw [AgreeOn, hmask, Ea.or_lowField_and hea hne hroom (by decide),
      Field.set_and_of_disjoint (by decide) (by decide)]
  · rw [Ea.get_or_lowField hea hne hroom (by decide) (by decide),
      Field.get_set_of_lt (by decide) _ hbits]

/-- Neither the fourth value of the size field nor a byte of an address register is in such a word. -/
theorem not_excluded {isDst : Bool} {ea : Ea} {w : UInt16}
    (hsize : Field.size.get w = size.toBits) (hlow : ea.InLow w)
    (hbyte : ¬ (size = .byte ∧ ea.modes = .an)) :
    ∀ x ∈ Format.exclusions (.sizedEa isDst), w &&& x.1 ≠ x.2 := by
  have hthree : w &&& 0x00C0 ≠ 0x00C0 := by
    intro hw
    have hget := Field.get_of_and_eq (f := .size) (by decide) hw (by decide)
    rw [hsize] at hget
    cases size <;> cases hget
  have haddr : w &&& 0x00F8 ≠ 0x0008 := by
    intro hw
    have hget := Field.get_of_and_eq (f := .size) (by decide) hw (by decide)
    have hmode := Field.get_of_and_eq (f := .eaMode) (by decide) hw (by decide)
    have hone : Field.eaMode.get w = 1 := hmode
    have han := hlow.mode
    rw [hone] at han
    rw [hsize] at hget
    refine hbyte ⟨?_, (Option.some.inj han).symm⟩
    cases size with
    | byte => rfl
    | word | long => cases hget
  cases isDst <;> simp [Format.exclusions, hthree, haddr]

theorem of_shift {r : UInt8} {inReg count w : UInt16} (hf : d.format = .shift) (hr : r < 8)
    (hinReg : inReg.toNat < 2 ^ Field.shiftInReg.width)
    (hcount : count.toNat < 2 ^ Field.shiftCount.width)
    (hop : Field.shiftCount.set (Field.shiftInReg.set (Field.lowReg.set d.opcode r.toUInt16) inReg)
      count = w) :
    AgreeOn (~~~d.format.operandMask) d.opcode w ∧ (Field.lowReg.get w).toUInt8 = r ∧
      Field.shiftInReg.get w = inReg ∧ Field.shiftCount.get w = count := by
  have hr : r.toUInt16.toNat < 2 ^ Field.lowReg.width := toNat_toUInt16_lt hr
  rw [← hop]
  refine ⟨?_, ?_, ?_, ?_⟩
  · rw [AgreeOn, hf]
    change _ = _ &&& ~~~0x0E27
    rw [Field.set_and_of_disjoint (by decide) (by decide),
      Field.set_and_of_disjoint (by decide) (by decide),
      Field.set_and_of_disjoint (by decide) (by decide)]
    rfl
  · rw [Field.get_set_of_disjoint (by decide) (by decide) (by decide),
      Field.get_set_of_disjoint (by decide) (by decide) (by decide),
      Field.get_set_of_lt (by decide) _ hr, UInt8.toUInt8_toUInt16]
  · rw [Field.get_set_of_disjoint (by decide) (by decide) (by decide),
      Field.get_set_of_lt (by decide) _ hinReg]
  · rw [Field.get_set_of_lt (by decide) _ hcount]

theorem of_mulWord {r : UInt8} {signed : Bool} {w : UInt16} (hr : r < 8)
    (hw : Field.signed.set (Field.quotientReg.set 0 r.toUInt16) signed.toUInt16 = w) :
    w &&& 0x0400 = 0 ∧ w &&& ~~~0x7C00 = 0 ∧ (Field.quotientReg.get w).toUInt8 = r ∧
      Field.signed.get w = signed.toUInt16 := by
  have hr : r.toUInt16.toNat < 2 ^ Field.quotientReg.width := toNat_toUInt16_lt hr
  have hsigned : signed.toUInt16.toNat < 2 ^ Field.signed.width := toNat_toUInt16_lt_two signed
  rw [← hw]
  refine ⟨?_, ?_, ?_, ?_⟩
  · rw [Field.set_and_of_disjoint (by decide) (by decide),
      Field.set_and_of_disjoint (by decide) (by decide)]
    rfl
  · rw [Field.set_and_of_disjoint (by decide) (by decide),
      Field.set_and_of_disjoint (by decide) (by decide)]
    rfl
  · rw [Field.get_set_of_disjoint (by decide) (by decide) (by decide),
      Field.get_set_of_lt (by decide) _ hr, UInt8.toUInt8_toUInt16]
  · rw [Field.get_set_of_lt (by decide) _ hsigned]

theorem of_divWord {r q : UInt8} {signed : Bool} {w : UInt16} (hr : r < 8) (hq : q < 8)
    (hw : Field.signed.set (Field.remainderReg.set (Field.quotientReg.set 0 q.toUInt16) r.toUInt16)
      signed.toUInt16 = w) :
    w &&& 0x0400 = 0 ∧ w &&& ~~~0x7C07 = 0 ∧ (Field.quotientReg.get w).toUInt8 = q ∧
      (Field.remainderReg.get w).toUInt8 = r ∧ Field.signed.get w = signed.toUInt16 := by
  have hr : r.toUInt16.toNat < 2 ^ Field.remainderReg.width := toNat_toUInt16_lt hr
  have hq : q.toUInt16.toNat < 2 ^ Field.quotientReg.width := toNat_toUInt16_lt hq
  have hsigned : signed.toUInt16.toNat < 2 ^ Field.signed.width := toNat_toUInt16_lt_two signed
  rw [← hw]
  refine ⟨?_, ?_, ?_, ?_, ?_⟩
  · rw [Field.set_and_of_disjoint (by decide) (by decide),
      Field.set_and_of_disjoint (by decide) (by decide),
      Field.set_and_of_disjoint (by decide) (by decide)]
    rfl
  · rw [Field.set_and_of_disjoint (by decide) (by decide),
      Field.set_and_of_disjoint (by decide) (by decide),
      Field.set_and_of_disjoint (by decide) (by decide)]
    rfl
  · rw [Field.get_set_of_disjoint (by decide) (by decide) (by decide),
      Field.get_set_of_disjoint (by decide) (by decide) (by decide),
      Field.get_set_of_lt (by decide) _ hq, UInt8.toUInt8_toUInt16]
  · rw [Field.get_set_of_disjoint (by decide) (by decide) (by decide),
      Field.get_set_of_lt (by decide) _ hr, UInt8.toUInt8_toUInt16]
  · rw [Field.get_set_of_lt (by decide) _ hsigned]

/-- A request for a format that names itself goes by one of its names. -/
def Named (d : Definition) (name : String) : Prop :=
  ∃ known ∈ d.format.ownNames, known.toList = Text.lower name.toList

theorem product_name {known name : String} (hknown : known ∈ Format.ownNames .mulLong)
    (hlower : known.toList = Text.lower name.toList) :
    (if (Text.lower name.toList == "muls".toList).toUInt16 ≠ 0 then "muls" else "mulu") = known := by
  have hall : ∀ known ∈ Format.ownNames .mulLong,
      (if (known.toList == "muls".toList).toUInt16 ≠ 0 then "muls" else "mulu") = known := by
    decide
  rw [← hlower]
  exact hall known hknown

theorem quotient_name {known name : String} (hknown : known ∈ Format.ownNames .divLong)
    (hlower : known.toList = Text.lower name.toList)
    (hrem : ¬ "rem".toList.isPrefixOf (Text.lower name.toList) = true) :
    (if ("s".toList.isSuffixOf (Text.lower name.toList)).toUInt16 ≠ 0 then "divs" else "divu") =
      known := by
  have hall : ∀ known ∈ Format.ownNames .divLong, ¬ "rem".toList.isPrefixOf known.toList = true →
      (if ("s".toList.isSuffixOf known.toList).toUInt16 ≠ 0 then "divs" else "divu") = known := by
    decide
  rw [← hlower] at hrem ⊢
  exact hall known hknown hrem

theorem remainder_name {known name : String} (hknown : known ∈ Format.ownNames .divLong)
    (hlower : known.toList = Text.lower name.toList)
    (hrem : "rem".toList.isPrefixOf (Text.lower name.toList) = true) :
    (if ("s".toList.isSuffixOf (Text.lower name.toList)).toUInt16 ≠ 0 then "rems" else "remu") =
      known := by
  have hall : ∀ known ∈ Format.ownNames .divLong, "rem".toList.isPrefixOf known.toList = true →
      (if ("s".toList.isSuffixOf known.toList).toUInt16 ≠ 0 then "rems" else "remu") = known := by
    decide
  rw [← hlower] at hrem ⊢
  exact hall known hknown hrem

section Formats

variable (hd : d.Regular) {name : String} {ops : Operands} (hregs : ops.RegistersExist)
  {e : Encoding} (h : d.plan name ops = .ok e) (hop : e.opword = s.opcode)
  (hstand : Ext.Stand s e.ext 0 n)

include hd hregs h hop hstand

theorem rereads_eaToData (hf : d.format = .eaToData size) : d.Rereads s name ops n := by
  simp only [plan, hf, except_bind_eq_ok, except_pure_eq_ok, Operands.require_eq_ok,
    Operands.requireDataReg_eq_ok] at h
  obtain ⟨_, hsize, ea, ⟨hsrc, hin, hne⟩, _, _, _, ⟨r, hdst, rfl⟩, rfl⟩ := h
  obtain ⟨rfl, hsame⟩ := hd.of_pickSize_single size hsize (hf ▸ rfl)
  have hea := hregs.1 ea hsrc
  have hr := toNat_toUInt16_lt (hregs.2 _ hdst)
  obtain ⟨hagree, hhigh, hlow⟩ := of_highReg_ea hd (hf ▸ rfl) hr hea hne hop
  obtain ⟨mark, hread⟩ := Ea.readLow_of_standsIn (c := .start) hea hlow (Ext.of_stand_ea hstand)
  have hfits := fits_of_src hd hagree (hf ▸ rfl) (hf ▸ rfl) hlow hin
  have hread : d.format.read d.mnemonic s .start =
      .ok (d.mnemonic, ⟨some size, some (ea.reduced size), some (.dataReg r)⟩) ⟨n, mark⟩ := by
    rw [hf]
    simp only [Format.read, Decoder.opcode_bind, Decoder.bind_eq_ok, Decoder.pure_eq_ok]
    exact ⟨_, _, hread, by rw [hhigh, UInt8.toUInt8_toUInt16], rfl⟩
  exact rereads_of hfits (hf ▸ rfl) (hf ▸ rfl) hread
    ⟨by rw [hsrc, hf]; rfl, by rw [hdst, hf]; rfl, hsame⟩

theorem rereads_dataToEa (hf : d.format = .dataToEa) : d.Rereads s name ops n := by
  simp only [plan, hf, except_bind_eq_ok, except_pure_eq_ok, Operands.require_eq_ok,
    Operands.requireDataReg_eq_ok] at h
  obtain ⟨_, hsize, _, ⟨r, hsrc, rfl⟩, ea, ⟨hdst, hin, hne⟩, rfl⟩ := h
  obtain ⟨rfl, hsame⟩ := hd.of_pickSize_single .long hsize (hf ▸ rfl)
  have hea := hregs.2 ea hdst
  have hr := toNat_toUInt16_lt (hregs.1 _ hsrc)
  obtain ⟨hagree, hhigh, hlow⟩ := of_highReg_ea hd (hf ▸ rfl) hr hea hne hop
  obtain ⟨mark, hread⟩ := Ea.readLow_of_standsIn (c := .start) hea hlow (Ext.of_stand_ea hstand)
  have hfits := fits_of_dst hd hagree (hf ▸ rfl) (hf ▸ rfl) hlow hin
  have hread : d.format.read d.mnemonic s .start =
      .ok (d.mnemonic, ⟨some .long, some (.dataReg r), some (ea.reduced .long)⟩) ⟨n, mark⟩ := by
    rw [hf]
    simp only [Format.read, Decoder.opcode_bind, Decoder.bind_eq_ok, Decoder.pure_eq_ok]
    exact ⟨_, _, hread, by rw [hhigh, UInt8.toUInt8_toUInt16], rfl⟩
  exact rereads_of hfits (hf ▸ rfl) (hf ▸ rfl) hread
    ⟨by rw [hsrc, hf]; rfl, by rw [hdst, hf]; rfl, hsame⟩

theorem rereads_eaToAddr (hf : d.format = .eaToAddr size) : d.Rereads s name ops n := by
  simp only [plan, hf, except_bind_eq_ok, except_pure_eq_ok, Operands.require_eq_ok,
    Operands.requireAddrReg_eq_ok] at h
  obtain ⟨_, hsize, ea, ⟨hsrc, hin, hne⟩, _, ⟨r, hdst, rfl⟩, rfl⟩ := h
  obtain ⟨rfl, hsame⟩ := hd.of_pickSize_single size hsize (hf ▸ rfl)
  have hea := hregs.1 ea hsrc
  have hr := toNat_toUInt16_lt (hregs.2 _ hdst)
  obtain ⟨hagree, hhigh, hlow⟩ := of_highReg_ea hd (hf ▸ rfl) hr hea hne hop
  obtain ⟨mark, hread⟩ := Ea.readLow_of_standsIn (c := .start) hea hlow (Ext.of_stand_ea hstand)
  have hfits := fits_of_src hd hagree (hf ▸ rfl) (hf ▸ rfl) hlow hin
  have hread : d.format.read d.mnemonic s .start =
      .ok (d.mnemonic, ⟨some size, some (ea.reduced size), some (.addrReg r)⟩) ⟨n, mark⟩ := by
    rw [hf]
    simp only [Format.read, Decoder.opcode_bind, Decoder.bind_eq_ok, Decoder.pure_eq_ok]
    exact ⟨_, _, hread, by rw [hhigh, UInt8.toUInt8_toUInt16], rfl⟩
  exact rereads_of hfits (hf ▸ rfl) (hf ▸ rfl) hread
    ⟨by rw [hsrc, hf]; rfl, by rw [hdst, hf]; rfl, hsame⟩

theorem rereads_immToData (hf : d.format = .immToData size) : d.Rereads s name ops n := by
  simp only [plan, hf, except_bind_eq_ok, except_pure_eq_ok, Operands.requireImmediate_eq_ok,
    Operands.requireDataReg_eq_ok] at h
  obtain ⟨_, hsize, _, ⟨v, hsrc, rfl⟩, _, ⟨r, hdst, rfl⟩, rfl⟩ := h
  obtain ⟨rfl, hsame⟩ := hd.of_pickSize_single size hsize (hf ▸ rfl)
  obtain ⟨hagree, hreg⟩ := of_lowReg (hf ▸ rfl) (hregs.2 _ hdst) hop
  have hread := Ea.readImmediate_of_standsIn (c := .start) (Ext.of_stand_ea hstand)
  have hmodes := hd.modes
  rw [hf, Format.modesFit, decide_eq_true_eq] at hmodes
  have hmode : Field.eaMode.get s.opcode = 0 := by
    have hsame := Field.get_congr (f := .eaMode) (by decide) (v := s.opcode) (w := 0) ?_
    · exact hsame
    · have hlow : s.opcode &&& 0x0038 = d.opcode &&& 0x0038 := by
        rw [hf] at hagree
        have hkeep : ~~~(Format.immToData size).operandMask &&& 0x0038 = 0x0038 := by
          change ~~~0x0007 &&& 0x0038 = 0x0038
          decide
        rw [← hkeep, ← UInt16.and_assoc, ← UInt16.and_assoc, hagree]
      exact hlow.trans hmodes.1
  have hfits : d.fits s.opcode = true := by
    refine fits_of hd hagree (by rw [hf]; exact List.forall_mem_nil _) ?_
    rw [hf]
    change lowModeIn _ _ = true
    rw [lowModeIn, hmode]
    exact hmodes.2
  have hread : d.format.read d.mnemonic s .start =
      .ok (d.mnemonic, ⟨some size, some ((Ea.immediate v).reduced size), some (.dataReg r)⟩)
        ⟨n, 0⟩ := by
    rw [hf]
    simp only [Format.read, Decoder.opcode_bind, Decoder.bind_eq_ok, Decoder.pure_eq_ok]
    exact ⟨_, _, hread, by rw [hreg], rfl⟩
  exact rereads_of hfits (hf ▸ rfl) (hf ▸ rfl) hread
    ⟨by rw [hsrc, hf]; rfl, by rw [hdst, hf]; rfl, hsame⟩

theorem rereads_quick {data : QuickData} (hf : d.format = .quick data) : d.Rereads s name ops n := by
  obtain ⟨_, v, x, ea, hsize, hsrc, hfield, hdst, hin, hne, rfl⟩ := of_plan_quick h hf
  obtain ⟨rfl, hsame⟩ := hd.of_pickSize_single .long hsize (hf ▸ rfl)
  obtain ⟨hx, hvalue⟩ := data.ofField_of_toField? hfield
  have hea := hregs.2 ea hdst
  obtain ⟨hagree, hhigh, hlow⟩ := of_highReg_ea hd (hf ▸ rfl) hx hea hne hop
  obtain ⟨mark, hread⟩ := Ea.readLow_of_standsIn (c := .start) hea hlow (Ext.of_stand_ea hstand)
  have hfits := fits_of_dst hd hagree (hf ▸ rfl) (hf ▸ rfl) hlow hin
  have hread : d.format.read d.mnemonic s .start =
      .ok (d.mnemonic, ⟨some .long, some (.immediate v), some (ea.reduced .long)⟩) ⟨n, mark⟩ := by
    rw [hf]
    simp only [Format.read, Decoder.opcode_bind, Decoder.bind_eq_ok, Decoder.pure_eq_ok]
    refine ⟨_, _, hread, ?_, rfl⟩
    rw [← hvalue]
    exact congrArg (fun x => (d.mnemonic, (⟨_, some (.immediate (data.ofField x)), _⟩ : Operands)))
      hhigh
  refine rereads_of hfits (hf ▸ rfl) (hf ▸ rfl) hread ⟨?_, by rw [hdst, hf]; rfl, hsame⟩
  rw [hsrc, hf]
  exact congrArg some (Eq.symm Ea.reduced_long)

theorem rereads_dataPair (hf : d.format = .dataPair) : d.Rereads s name ops n := by
  simp only [plan, hf, except_bind_eq_ok, except_pure_eq_ok, Operands.requireDataReg_eq_ok] at h
  obtain ⟨_, hsize, _, ⟨r, hsrc, rfl⟩, _, ⟨q, hdst, rfl⟩, rfl⟩ := h
  obtain rfl : 0 = n := hstand
  obtain ⟨rfl, hsame⟩ := hd.of_pickSize_single .long hsize (hf ▸ rfl)
  have hr : r.toUInt16.toNat < 2 ^ Field.lowReg.width := toNat_toUInt16_lt (hregs.1 _ hsrc)
  have hq : q.toUInt16.toNat < 2 ^ Field.highReg.width := toNat_toUInt16_lt (hregs.2 _ hdst)
  have hop : Field.lowReg.set (Field.highReg.set d.opcode q.toUInt16) r.toUInt16 = s.opcode := hop
  have hagree : AgreeOn (~~~d.format.operandMask) d.opcode s.opcode := by
    rw [AgreeOn, ← hop, hf]
    change _ = _ &&& ~~~0x0E07
    rw [Field.set_and_of_disjoint (by decide) (by decide),
      Field.set_and_of_disjoint (by decide) (by decide)]
    rfl
  have hlow : Field.lowReg.get s.opcode = r.toUInt16 := by
    rw [← hop, Field.get_set_of_lt (by decide) _ hr]
  have hhigh : Field.highReg.get s.opcode = q.toUInt16 := by
    rw [← hop, Field.get_set_of_disjoint (by decide) (by decide) (by decide),
      Field.get_set_of_lt (by decide) _ hq]
  have hfits := fits_of_none hd hagree (hf ▸ rfl) (hf ▸ rfl)
  have hread : d.format.read d.mnemonic s .start =
      .ok (d.mnemonic, ⟨some .long, some (.dataReg r), some (.dataReg q)⟩) ⟨0, 0⟩ := by
    rw [hf]
    simp only [Format.read, Decoder.opcode_bind, Decoder.pure_eq_ok]
    exact ⟨by rw [hlow, hhigh, UInt8.toUInt8_toUInt16, UInt8.toUInt8_toUInt16],
      rfl⟩
  exact rereads_of hfits (hf ▸ rfl) (hf ▸ rfl) hread
    ⟨by rw [hsrc, hf]; rfl, by rw [hdst, hf]; rfl, hsame⟩

theorem rereads_dataReg (hf : d.format = .dataReg size) : d.Rereads s name ops n := by
  simp only [plan, hf, except_bind_eq_ok, except_pure_eq_ok, Operands.forbid_eq_ok,
    Operands.requireDataReg_eq_ok] at h
  obtain ⟨_, hsize, _, hsrc, _, ⟨r, hdst, rfl⟩, rfl⟩ := h
  obtain rfl : 0 = n := hstand
  obtain ⟨rfl, hsame⟩ := hd.of_pickSize_single size hsize (hf ▸ rfl)
  obtain ⟨hagree, hreg⟩ := of_lowReg (hf ▸ rfl) (hregs.2 _ hdst) hop
  have hfits := fits_of_none hd hagree (hf ▸ rfl) (hf ▸ rfl)
  have hread : d.format.read d.mnemonic s .start =
      .ok (d.mnemonic, ⟨some size, none, some (.dataReg r)⟩) ⟨0, 0⟩ := by
    rw [hf]
    simp only [Format.read, Decoder.opcode_bind, Decoder.pure_eq_ok]
    exact ⟨by rw [hreg], rfl⟩
  exact rereads_of hfits (hf ▸ rfl) (hf ▸ rfl) hread
    ⟨by rw [hsrc]; rfl, by rw [hdst, hf]; rfl, hsame⟩

theorem rereads_sizedEa {isDst : Bool} (hf : d.format = .sizedEa isDst) :
    d.Rereads s name ops n := by
  obtain ⟨size, ea, hsize, hsrc, hdst, hin, hne, hbyte, rfl⟩ := of_plan_sizedEa h hf
  obtain ⟨-, hsame⟩ := hd.of_pickSize hsize
  have hea : ea.RegistersExist := by
    cases isDst with
    | true => exact hregs.2 ea hdst
    | false => exact hregs.1 ea hsrc
  obtain ⟨hagree, hbits, hlow⟩ := of_size_ea hd (hf ▸ rfl) hea hne hop
  obtain ⟨mark, hread⟩ := Ea.readLow_of_standsIn (c := .start) hea hlow (Ext.of_stand_ea hstand)
  have hfits : d.fits s.opcode = true := by
    refine fits_of hd hagree (by rw [hf]; exact not_excluded hbits hlow hbyte) ?_
    rw [hf]
    cases isDst with
    | true => exact lowModeIn_of hlow hin
    | false => exact lowModeIn_of hlow hin
  have hread : d.format.read d.mnemonic s .start = .ok (d.mnemonic,
      if isDst then ⟨some size, none, some (ea.reduced size)⟩
      else ⟨some size, some (ea.reduced size), none⟩) ⟨n, mark⟩ := by
    rw [hf]
    simp only [Format.read, Decoder.opcode_bind]
    rw [hbits, Size.ofBits?_toBits, Decoder.bind_eq_ok]
    exact ⟨_, _, hread, rfl⟩
  refine rereads_of hfits (hf ▸ rfl) (hf ▸ rfl) hread ?_
  rw [hf]
  cases isDst with
  | true =>
    exact ⟨by rw [hsrc]; rfl, by rw [hdst]; rfl,
      fun s t hs ht => (hsame s hs).trans (Option.some.inj ht)⟩
  | false =>
    exact ⟨by rw [hsrc]; rfl, by rw [hdst]; rfl,
      fun s t hs ht => (hsame s hs).trans (Option.some.inj ht)⟩

theorem rereads_shift (hf : d.format = .shift) : d.Rereads s name ops n := by
  obtain ⟨_, r, hsize, hdst, ⟨q, hsrc, rfl⟩ | ⟨v, x, hsrc, hx, rfl⟩⟩ := of_plan_shift h hf
  · obtain ⟨rfl, hsame⟩ := hd.of_pickSize_single .long hsize (hf ▸ rfl)
    obtain rfl : 0 = n := hstand
    have hq := toNat_toUInt16_lt (hregs.1 _ hsrc)
    obtain ⟨hagree, hlow, hinReg, hcount⟩ := of_shift hf (hregs.2 _ hdst) (by decide) hq hop
    have hfits := fits_of_none hd hagree (hf ▸ rfl) (hf ▸ rfl)
    have hread : d.format.read d.mnemonic s .start =
        .ok (d.mnemonic, ⟨some .long, some (.dataReg q), some (.dataReg r)⟩) ⟨0, 0⟩ := by
      rw [hf]
      simp only [Format.read, Decoder.opcode_bind, Decoder.pure_eq_ok]
      refine ⟨?_, rfl⟩
      rw [if_pos (by rw [hinReg]; decide), hcount, hlow, UInt8.toUInt8_toUInt16]
    exact rereads_of hfits (hf ▸ rfl) (hf ▸ rfl) hread
      ⟨by rw [hsrc, hf]; rfl, by rw [hdst, hf]; rfl, hsame⟩
  · obtain ⟨rfl, hsame⟩ := hd.of_pickSize_single .long hsize (hf ▸ rfl)
    obtain rfl : 0 = n := hstand
    obtain ⟨hlt, hvalue⟩ := QuickData.oneToEight.ofField_of_toField? hx
    obtain ⟨hagree, hlow, hinReg, hcount⟩ := of_shift hf (hregs.2 _ hdst) (by decide) hlt hop
    have hfits := fits_of_none hd hagree (hf ▸ rfl) (hf ▸ rfl)
    have hread : d.format.read d.mnemonic s .start =
        .ok (d.mnemonic, ⟨some .long, some (.immediate v), some (.dataReg r)⟩) ⟨0, 0⟩ := by
      rw [hf]
      simp only [Format.read, Decoder.opcode_bind, Decoder.pure_eq_ok]
      refine ⟨?_, rfl⟩
      rw [if_neg (by rw [hinReg]; decide), hcount, hlow, hvalue]
    refine rereads_of hfits (hf ▸ rfl) (hf ▸ rfl) hread ⟨?_, by rw [hdst, hf]; rfl, hsame⟩
    rw [hsrc, hf]
    exact congrArg some (Eq.symm Ea.reduced_long)

theorem rereads_bitInReg (hf : d.format = .bitInReg) : d.Rereads s name ops n := by
  simp only [plan, hf, except_bind_eq_ok, except_pure_eq_ok, Operands.require_eq_ok,
    Operands.requireDataReg_eq_ok, Operands.checkBitSize_eq_ok] at h
  obtain ⟨_, ⟨r, hsrc, rfl⟩, ea, ⟨hdst, hin, hne⟩, _, hbit, rfl⟩ := h
  have hea := hregs.2 ea hdst
  have hr := toNat_toUInt16_lt (hregs.1 _ hsrc)
  obtain ⟨hagree, hhigh, hlow⟩ := of_highReg_ea hd (hf ▸ rfl) hr hea hne hop
  obtain ⟨mark, hread⟩ := Ea.readLow_of_standsIn (c := .start) hea hlow (Ext.of_stand_ea hstand)
  have hfits := fits_of_dst hd hagree (hf ▸ rfl) (hf ▸ rfl) hlow hin
  have hread : d.format.read d.mnemonic s .start =
      .ok (d.mnemonic, ⟨some ea.bitSize, some (.dataReg r), some (ea.reduced .byte)⟩)
        ⟨n, mark⟩ := by
    rw [hf]
    simp only [Format.read, Decoder.opcode_bind, Decoder.bind_eq_ok, Decoder.pure_eq_ok]
    exact ⟨_, _, hread,
      by rw [hhigh, UInt8.toUInt8_toUInt16, Ea.bitSize_reduced], rfl⟩
  exact rereads_of hfits (hf ▸ rfl) (hf ▸ rfl) hread
    ⟨by rw [hsrc, hf]; rfl, by rw [hdst, hf]; rfl,
      fun s t hs ht => (hbit s hs).trans (Option.some.inj ht)⟩

theorem rereads_bitInWord (hf : d.format = .bitInWord) : d.Rereads s name ops n := by
  simp only [plan, hf, except_bind_eq_ok, Operands.requireImmediate_eq_ok] at h
  obtain ⟨_, ⟨v, hsrc, rfl⟩, h⟩ := h
  obtain ⟨hrange, h⟩ := except_guard_eq_ok.1 h
  simp only [except_bind_eq_ok, except_pure_eq_ok, Operands.require_eq_ok,
    Operands.checkBitSize_eq_ok] at h
  obtain ⟨ea, ⟨hdst, hin, hne⟩, _, hbit, rfl⟩ := h
  obtain ⟨hword, hstand⟩ := Ext.of_stand_word hstand
  have hea := hregs.2 ea hdst
  obtain ⟨hagree, hlow⟩ := of_ea hd (hf ▸ rfl) hea hne hop
  obtain ⟨mark, hread⟩ := Ea.readLow_of_standsIn (c := ⟨1, 0⟩) hea hlow (Ext.of_stand_ea hstand)
  have hfits := fits_of_dst hd hagree (hf ▸ rfl) (hf ▸ rfl) hlow hin
  have hlt : v.toNat < 256 := by
    rw [gt_iff_lt, UInt32.lt_iff_toNat_lt] at hrange
    change ¬ 255 < v.toNat at hrange
    omega
  have hsmall : ¬ v.toUInt16 > 0xFF := by
    rw [gt_iff_lt, UInt16.lt_iff_toNat_lt, UInt32.toNat_toUInt16]
    change ¬ 255 < v.toNat % 65536
    omega
  have hvalue : v.toUInt16.toUInt32 = v := by
    rw [← UInt32.toNat_inj, UInt16.toNat_toUInt32, UInt32.toNat_toUInt16]
    omega
  have hread : d.format.read d.mnemonic s .start =
      .ok (d.mnemonic, ⟨some ea.bitSize, some (.immediate v), some (ea.reduced .byte)⟩)
        ⟨n, mark⟩ := by
    rw [hf]
    simp only [Format.read, Decoder.opcode_bind, Decoder.bind_eq_ok, Decoder.nextWord_eq_ok]
    refine ⟨_, _, ⟨hword, rfl⟩, ?_⟩
    rw [if_neg hsmall, Decoder.bind_eq_ok]
    refine ⟨_, _, hread, ?_⟩
    rw [Ea.bitSize_reduced, hvalue]
    rfl
  refine rereads_of hfits (hf ▸ rfl) (hf ▸ rfl) hread ⟨?_, by rw [hdst, hf]; rfl,
    fun s t hs ht => (hbit s hs).trans (Option.some.inj ht)⟩
  have hmask : v &&& Size.byte.mask = v := by
    rw [← UInt32.toNat_inj, UInt32.toNat_and]
    change v.toNat &&& 2 ^ 8 - 1 = v.toNat
    rw [Nat.and_two_pow_sub_one_eq_mod, Nat.mod_eq_of_lt hlt]
  rw [hsrc, hf]
  change some (Ea.immediate v) = some (Ea.immediate (v &&& Size.byte.mask))
  rw [hmask]

theorem rereads_mulLong (hname : d.Named name) (hf : d.format = .mulLong) :
    d.Rereads s name ops n := by
  simp only [plan, hf, except_bind_eq_ok, except_pure_eq_ok, Operands.require_eq_ok,
    Operands.requireDataReg_eq_ok] at h
  obtain ⟨_, hsize, ea, ⟨hsrc, hin, hne⟩, _, ⟨r, hdst, rfl⟩, rfl⟩ := h
  obtain ⟨hword, hstand⟩ := Ext.of_stand_word hstand
  obtain ⟨rfl, hsame⟩ := hd.of_pickSize_single .long hsize (hf ▸ rfl)
  have hea := hregs.1 ea hsrc
  obtain ⟨hagree, hlow⟩ := of_ea hd (hf ▸ rfl) hea hne hop
  obtain ⟨hproduct, hrest, hreg, hsigned⟩ := of_mulWord (hregs.2 _ hdst) rfl
  obtain ⟨mark, hread⟩ := Ea.readLow_of_standsIn (c := ⟨1, 0⟩) hea hlow (Ext.of_stand_ea hstand)
  have hfits := fits_of_src hd hagree (hf ▸ rfl) (hf ▸ rfl) hlow hin
  obtain ⟨known, hknown, hlower⟩ := hname
  refine ⟨hfits, hf ▸ rfl, known, ⟨some .long, some (ea.reduced .long), some (.dataReg r)⟩, mark, ?_,
    ⟨by rw [hsrc, hf]; rfl, by rw [hdst, hf]; rfl, hsame⟩, ?_⟩
  · rw [hf]
    simp only [Format.read, Decoder.opcode_bind, Decoder.bind_eq_ok, Decoder.nextWord_eq_ok]
    refine ⟨_, _, ⟨hword, rfl⟩, ?_⟩
    rw [if_neg (not_not.mpr hproduct), if_neg (not_not.mpr hrest), Decoder.bind_eq_ok]
    refine ⟨_, _, hread, ?_⟩
    rw [hsigned, hreg, product_name (hf ▸ hknown) hlower]
    rfl
  · rw [Calls, hf, if_neg (by decide)]
    exact hlower

theorem rereads_divLong (hname : d.Named name) (hf : d.format = .divLong) :
    d.Rereads s name ops n := by
  obtain ⟨_, ea, r, q, hsize, hsrc, hin, hne, hwhich, rfl⟩ := of_plan_divLong h hf
  obtain ⟨rfl, hsame⟩ := hd.of_pickSize_single .long hsize (hf ▸ rfl)
  have hea := hregs.1 ea hsrc
  obtain ⟨known, hknown, hlower⟩ := hname
  have hexist : r < 8 ∧ q < 8 := by
    rcases hwhich with ⟨-, hdst, -⟩ | ⟨-, hdst, rfl⟩
    · exact hregs.2 _ hdst
    · exact ⟨hregs.2 _ hdst, hregs.2 _ hdst⟩
  obtain ⟨hword, hstand⟩ := Ext.of_stand_word hstand
  obtain ⟨hagree, hlow⟩ := of_ea hd (hf ▸ rfl) hea hne hop
  obtain ⟨hdividend, hrest, hquot, hrmd, hsigned⟩ := of_divWord hexist.1 hexist.2 rfl
  obtain ⟨mark, hread⟩ := Ea.readLow_of_standsIn (c := ⟨1, 0⟩) hea hlow (Ext.of_stand_ea hstand)
  have hfits := fits_of_src hd hagree (hf ▸ rfl) (hf ▸ rfl) hlow hin
  have hcalls : d.Calls name known := by
    rw [Calls, hf, if_neg (by decide)]
    exact hlower
  rcases hwhich with ⟨hrem, hdst, hdiffer⟩ | ⟨hrem, hdst, rfl⟩
  · refine ⟨hfits, hf ▸ rfl, known, ⟨some .long, some (ea.reduced .long), some (.regPair r q)⟩, mark,
      ?_, ⟨by rw [hsrc, hf]; rfl, by rw [hdst, hf]; rfl, hsame⟩, hcalls⟩
    rw [hf]
    simp only [Format.read, Decoder.opcode_bind, Decoder.bind_eq_ok, Decoder.nextWord_eq_ok]
    refine ⟨_, _, ⟨hword, rfl⟩, ?_⟩
    rw [if_neg (not_not.mpr hdividend), if_neg (not_not.mpr hrest), Decoder.bind_eq_ok]
    refine ⟨_, _, hread, ?_⟩
    rw [hsigned, hquot, hrmd, if_neg (Ne.symm hdiffer), remainder_name (hf ▸ hknown) hlower hrem]
    rfl
  · refine ⟨hfits, hf ▸ rfl, known, ⟨some .long, some (ea.reduced .long), some (.dataReg r)⟩, mark, ?_,
      ⟨by rw [hsrc, hf]; rfl, by rw [hdst, hf]; rfl, hsame⟩, hcalls⟩
    rw [hf]
    simp only [Format.read, Decoder.opcode_bind, Decoder.bind_eq_ok, Decoder.nextWord_eq_ok]
    refine ⟨_, _, ⟨hword, rfl⟩, ?_⟩
    rw [if_neg (not_not.mpr hdividend), if_neg (not_not.mpr hrest), Decoder.bind_eq_ok]
    refine ⟨_, _, hread, ?_⟩
    rw [hsigned, hquot, hrmd, if_pos rfl, quotient_name (hf ▸ hknown) hlower hrem]
    rfl

end Formats

end Definition

end ColdFire
