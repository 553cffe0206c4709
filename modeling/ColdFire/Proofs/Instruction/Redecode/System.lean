import ColdFire.Proofs.Instruction.Redecode.Basic

namespace ColdFire

namespace Format

variable {off : Int32}

theorem of_offsetFits_byte (h : offsetFits off .byte = true) :
    off ≠ 0 ∧ off ≠ -1 ∧ off.toInt8.toInt32 = off := by
  simp only [offsetFits, Bool.and_eq_true, bne_iff_ne, decide_eq_true_eq,
    Int32.le_iff_toInt_le] at h
  obtain ⟨hzero, ⟨hmark, hlo⟩, hhi⟩ := h
  exact ⟨hzero, hmark, toInt32_toInt8 hlo hhi⟩

theorem of_offsetFits_word (h : offsetFits off .word = true) : off.toInt16.toInt32 = off := by
  simp only [offsetFits, Bool.and_eq_true, bne_iff_ne, decide_eq_true_eq,
    Int32.le_iff_toInt_le] at h
  obtain ⟨-, hlo, hhi⟩ := h
  exact toInt32_toInt16 hlo hhi

end Format

namespace Ea

theorem reduced_word (v : UInt32) :
    (immediate v).reduced .word = immediate v.toUInt16.toUInt32 := by
  rw [reduced, Size.and_mask_word]

end Ea

namespace Definition

variable {d : Definition} {s : WordSource} {n : Nat}

theorem agree_bare {w : UInt16} (hop : d.opcode = w) :
    AgreeOn (~~~d.format.operandMask) d.opcode w := by
  rw [hop]
  rfl

/-- The skipped data of a trap that never traps is told by the low three bits. -/
theorem fits_tpf {r : UInt8} (hd : d.Regular) (hf : d.format = .tpf) (hlt : r < 8)
    (hr : [2, 3, 4].contains r = true) (hop : Field.lowReg.set d.opcode r.toUInt16 = s.opcode) :
    d.fits s.opcode = true ∧ (Field.lowReg.get s.opcode).toUInt8 = r := by
  obtain ⟨hagree, hreg⟩ := of_lowReg (hf ▸ rfl) hlt hop
  refine ⟨fits_of hd hagree ?_ (by rw [hf]; trivial), hreg⟩
  have hall : ((Format.exclusions .tpf).all fun e =>
      e.1 == 0x0007 && !([2, 3, 4].contains (Field.lowReg.get e.2).toUInt8)) = true := by decide
  intro e he hex
  have hbits := List.all_eq_true.mp hall e (hf ▸ he)
  rw [Bool.and_eq_true, beq_iff_eq] at hbits
  rw [hbits.1] at hex
  rw [← Field.get_of_and_eq (f := .lowReg) (by decide) hex (by decide), hreg, hr] at hbits
  exact absurd hbits.2 (by decide)

theorem of_controlWord (bank : UInt16) {code : UInt16} {r : UInt8} (hbank : bank.toNat < 2) (hr : r < 8)
    (hcode : code ≤ 0xFFF) :
    let w := Field.controlCode.set
      (Field.controlReg.set (Field.controlBank.set 0 bank) r.toUInt16) code
    Field.controlBank.get w = bank ∧ (Field.controlReg.get w).toUInt8 = r ∧
      Field.controlCode.get w = code := by
  have hbank : bank.toNat < 2 ^ Field.controlBank.width := hbank
  have hr : r.toUInt16.toNat < 2 ^ Field.controlReg.width := toNat_toUInt16_lt hr
  have hcode : code.toNat < 2 ^ Field.controlCode.width :=
    Nat.lt_succ_of_le (UInt16.le_iff_toNat_le.mp hcode)
  simp (disch := first | decide | assumption) only [Field.get_set_of_disjoint,
    Field.get_set_of_lt, UInt8.toUInt8_toUInt16, and_self]

section Formats

variable (hd : d.Regular) {name : String} {ops : Operands} (hregs : ops.RegistersExist)
  {e : Encoding} (h : d.plan name ops = .ok e) (hop : e.opword = s.opcode)
  (hstand : Ext.Stand s e.ext 0 n)

include hd h hop hstand

theorem rereads_branch (hf : d.format = .branch) : d.Rereads s name ops n := by
  have hmask : d.format.operandMask = 0x00FF := by rw [hf]; rfl
  have hexclusions : d.format.exclusions = [(0x00FF, 0x00FF)] := by rw [hf]; rfl
  obtain ⟨off, hsrc, hdst, ⟨hsame, hoff, rfl⟩ | ⟨hsame, hoff, rfl⟩⟩ := of_plan_branch hf h
  · -- the displacement is in the opcode word, where neither zero nor all ones stand for one
    obtain rfl : 0 = n := hstand
    obtain ⟨hzero, hmark, hwide⟩ := Format.of_offsetFits_byte hoff
    have hop : Field.branchDisp.set d.opcode off.toInt8.toUInt8.toUInt16 = s.opcode := hop
    have hdisp : Field.branchDisp.get s.opcode = off.toInt8.toUInt8.toUInt16 := by
      have hbyte : off.toInt8.toUInt8.toUInt16.toNat < 2 ^ Field.branchDisp.width :=
        off.toInt8.toUInt8.toNat_lt
      rw [← hop, Field.get_set_of_lt (by decide) _ hbyte]
    have hback : (Field.branchDisp.get s.opcode).toUInt8.toInt8.toInt32 = off := by
      rw [hdisp, UInt8.toUInt8_toUInt16, Int8.toInt8_toUInt8, hwide]
    have hagree : AgreeOn (~~~d.format.operandMask) d.opcode s.opcode := by
      rw [AgreeOn, ← hop, hmask, Field.set_and_of_disjoint (by decide) (by decide)]
    have hne : s.opcode &&& 0x00FF ≠ 0x00FF := by
      intro hones
      rw [Field.get_of_and_eq (by decide) hones (by decide)] at hback
      exact hmark (hback.symm.trans (by decide))
    have hshort : Field.branchDisp.get s.opcode ≠ 0 := by
      intro hget
      rw [hget] at hback
      exact hzero (hback.symm.trans (by decide))
    have hfits : d.fits s.opcode = true := by
      refine fits_of hd hagree ?_ (by rw [hf]; trivial)
      rw [hexclusions]
      exact List.forall_mem_singleton.mpr hne
    have hread : d.format.read d.mnemonic s .start =
        .ok (d.mnemonic, ⟨some .byte, some (.relative off), none⟩) ⟨0, 0⟩ := by
      rw [hf]
      simp only [Format.read, Decoder.opcode_bind]
      rw [if_neg hshort, hback]
      rfl
    exact rereads_of hfits (hf ▸ rfl) (hf ▸ rfl) hread
      ⟨by rw [hsrc]; rfl, by rw [hdst]; rfl,
        fun s t hs ht => (hsame s hs).trans (Option.some.inj ht)⟩
  · -- the displacement follows in a word of its own, and its place in the opcode word stays clear
    obtain ⟨hword, hn⟩ := Ext.of_stand_word hstand
    have hn : 1 = n := hn
    have hwide := Format.of_offsetFits_word hoff
    have hop : d.opcode = s.opcode := hop
    have hclear : s.opcode &&& 0x00FF = 0 := by
      rw [← hop]
      exact opcode_and hd (by rw [hmask]; decide)
    have hshort : Field.branchDisp.get s.opcode = 0 :=
      Field.get_of_and_eq (by decide) hclear (by decide)
    have hfits : d.fits s.opcode = true := by
      refine fits_of hd (agree_bare hop) ?_ (by rw [hf]; trivial)
      rw [hexclusions]
      refine List.forall_mem_singleton.mpr ?_
      rw [hclear]
      decide
    have hback : off.toInt16.toUInt16.toInt16.toInt32 = off := by
      rw [Int16.toInt16_toUInt16, hwide]
    have hread : d.format.read d.mnemonic s .start =
        .ok (d.mnemonic, ⟨some .word, some (.relative off), none⟩) ⟨n, 0⟩ := by
      rw [hf]
      simp only [Format.read, Decoder.opcode_bind]
      rw [if_pos hshort, ← hn]
      simp only [Decoder.bind_eq_ok, Decoder.nextWord_eq_ok, Decoder.pure_eq_ok]
      exact ⟨_, _, ⟨hword, rfl⟩, by rw [hback], rfl⟩
    exact rereads_of hfits (hf ▸ rfl) (hf ▸ rfl) hread
      ⟨by rw [hsrc]; rfl, by rw [hdst]; rfl,
        fun s t hs ht => (hsame s hs).trans (Option.some.inj ht)⟩

theorem rereads_longBranch (hf : d.format = .longBranch) : d.Rereads s name ops n := by
  obtain ⟨off, hsrc, hdst, hsame, rfl⟩ := of_plan_longBranch h hf
  obtain ⟨hlong, hn⟩ := Ext.of_stand_long hstand
  have hn : 2 = n := hn
  have hfits := fits_of_none hd (agree_bare hop) (hf ▸ rfl) (hf ▸ rfl)
  have hread : d.format.read d.mnemonic s .start =
      .ok (d.mnemonic, ⟨some .long, some (.relative off), none⟩) ⟨n, 0⟩ := by
    rw [hf, ← hn]
    simp only [Format.read, Decoder.opcode_bind, Decoder.bind_eq_ok, Ea.nextLong_eq_ok,
      Decoder.pure_eq_ok]
    exact ⟨_, _, ⟨hlong, rfl⟩, by rw [Int32.toInt32_toUInt32], rfl⟩
  exact rereads_of hfits (hf ▸ rfl) (hf ▸ rfl) hread
    ⟨by rw [hsrc]; rfl, by rw [hdst]; rfl, fun s t hs ht => (hsame s hs).trans (Option.some.inj ht)⟩

theorem rereads_bare (hf : d.format = .bare) : d.Rereads s name ops n := by
  simp only [plan, hf, except_bind_eq_ok, except_pure_eq_ok, Operands.forbid_eq_ok] at h
  obtain ⟨_, hsrc, _, hdst, rfl⟩ := h
  obtain rfl : 0 = n := hstand
  have hfits := fits_of_none hd (agree_bare hop) (hf ▸ rfl) (hf ▸ rfl)
  have hread : d.format.read d.mnemonic s .start =
      .ok (d.mnemonic, ⟨none, none, none⟩) ⟨0, 0⟩ := by
    rw [hf]
    simp only [Format.read, Decoder.opcode_bind, Decoder.pure_eq_ok]
    exact ⟨trivial, rfl⟩
  exact rereads_of hfits (hf ▸ rfl) (hf ▸ rfl) hread
    ⟨by rw [hsrc]; rfl, by rw [hdst]; rfl, Operands.size_of_none rfl⟩

theorem rereads_immWord (hf : d.format = .immWord) : d.Rereads s name ops n := by
  simp only [plan, hf, except_bind_eq_ok, except_pure_eq_ok, Operands.requireImmediate_eq_ok,
    Operands.forbid_eq_ok] at h
  obtain ⟨_, ⟨v, hsrc, rfl⟩, _, hdst, rfl⟩ := h
  obtain ⟨hword, hn⟩ := Ext.of_stand_word hstand
  have hn : 1 = n := hn
  have hfits := fits_of_none hd (agree_bare hop) (hf ▸ rfl) (hf ▸ rfl)
  have hread : d.format.read d.mnemonic s .start =
      .ok (d.mnemonic, ⟨none, some (.immediate v.toUInt16.toUInt32), none⟩) ⟨n, 0⟩ := by
    rw [hf, ← hn]
    simp only [Format.read, Decoder.opcode_bind, Decoder.bind_eq_ok, Decoder.nextWord_eq_ok,
      Decoder.pure_eq_ok]
    exact ⟨_, _, ⟨hword, rfl⟩, rfl, rfl⟩
  refine rereads_of hfits (hf ▸ rfl) (hf ▸ rfl) hread ⟨?_, by rw [hdst]; rfl, Operands.size_of_none rfl⟩
  rw [hsrc, hf]
  exact congrArg some (Ea.reduced_word v).symm

theorem rereads_loadStatus (hf : d.format = .loadStatus) : d.Rereads s name ops n := by
  simp only [plan, hf, except_bind_eq_ok, except_pure_eq_ok, Operands.requireImmediate_eq_ok,
    Operands.forbid_eq_ok] at h
  obtain ⟨_, ⟨v, hsrc, rfl⟩, _, hdst, rfl⟩ := h
  obtain ⟨hfirst, hstand⟩ := Ext.of_stand_word hstand
  obtain ⟨hword, hn⟩ := Ext.of_stand_word hstand
  have hn : 2 = n := hn
  have hfits := fits_of_none hd (agree_bare hop) (hf ▸ rfl) (hf ▸ rfl)
  have hread : d.format.read d.mnemonic s .start =
      .ok (d.mnemonic, ⟨none, some (.immediate v.toUInt16.toUInt32), none⟩) ⟨n, 0⟩ := by
    rw [hf, ← hn]
    simp only [Format.read, Decoder.opcode_bind, Decoder.bind_eq_ok, Decoder.nextWord_eq_ok]
    refine ⟨_, _, ⟨hfirst, rfl⟩, ?_⟩
    rw [if_neg (not_not.mpr rfl)]
    simp only [Decoder.bind_eq_ok, Decoder.nextWord_eq_ok, Decoder.pure_eq_ok]
    exact ⟨_, _, ⟨hword, rfl⟩, rfl, rfl⟩
  refine rereads_of hfits (hf ▸ rfl) (hf ▸ rfl) hread ⟨?_, by rw [hdst]; rfl, Operands.size_of_none rfl⟩
  rw [hsrc, hf]
  exact congrArg some (Ea.reduced_word v).symm

theorem rereads_tpf (hf : d.format = .tpf) : d.Rereads s name ops n := by
  obtain ⟨hdst, ⟨-, hsrc, rfl⟩ | ⟨v, hsrc, ⟨hsize, rfl⟩ | ⟨hsize, rfl⟩⟩⟩ := of_plan_tpf h hf
  · obtain rfl : 0 = n := hstand
    obtain ⟨hfits, hreg⟩ := fits_tpf (r := 4) hd hf (by decide) (by decide) hop
    have hread : d.format.read d.mnemonic s .start =
        .ok (d.mnemonic, ⟨none, none, none⟩) ⟨0, 0⟩ := by
      rw [hf]
      simp only [Format.read, Decoder.opcode_bind]
      rw [hreg]
      rfl
    exact rereads_of hfits (hf ▸ rfl) (hf ▸ rfl) hread
      ⟨by rw [hsrc]; rfl, by rw [hdst]; rfl, Operands.size_of_none rfl⟩
  · obtain ⟨hword, hn⟩ := Ext.of_stand_word hstand
    have hn : 1 = n := hn
    obtain ⟨hfits, hreg⟩ := fits_tpf (r := 2) hd hf (by decide) (by decide) hop
    have hread : d.format.read d.mnemonic s .start =
        .ok (d.mnemonic, ⟨some .word, some (.immediate v.toUInt16.toUInt32), none⟩) ⟨n, 0⟩ := by
      rw [hf, ← hn]
      simp only [Format.read, Decoder.opcode_bind]
      rw [hreg, if_pos rfl]
      simp only [Decoder.bind_eq_ok, Decoder.nextWord_eq_ok, Decoder.pure_eq_ok]
      exact ⟨_, _, ⟨hword, rfl⟩, rfl, rfl⟩
    refine rereads_of hfits (hf ▸ rfl) (hf ▸ rfl) hread ⟨?_, by rw [hdst]; rfl, ?_⟩
    · rw [hsrc, hf]
      exact congrArg some (Ea.reduced_word v).symm
    · rw [hsize]
      exact fun s t hs ht => (Option.some.inj hs).symm.trans (Option.some.inj ht)
  · obtain ⟨hlong, hn⟩ := Ext.of_stand_long hstand
    have hn : 2 = n := hn
    obtain ⟨hfits, hreg⟩ := fits_tpf (r := 3) hd hf (by decide) (by decide) hop
    have hread : d.format.read d.mnemonic s .start =
        .ok (d.mnemonic, ⟨some .long, some (.immediate v), none⟩) ⟨n, 0⟩ := by
      rw [hf, ← hn]
      simp only [Format.read, Decoder.opcode_bind]
      rw [hreg, if_neg (by decide), if_pos rfl]
      simp only [Decoder.bind_eq_ok, Ea.nextLong_eq_ok, Decoder.pure_eq_ok]
      exact ⟨_, _, ⟨hlong, rfl⟩, rfl, rfl⟩
    refine rereads_of hfits (hf ▸ rfl) (hf ▸ rfl) hread ⟨?_, by rw [hdst]; rfl, ?_⟩
    · rw [hsrc, hf]
      exact congrArg some (Eq.symm Ea.reduced_long)
    · rw [hsize]
      exact fun s t hs ht => (Option.some.inj hs).symm.trans (Option.some.inj ht)

theorem rereads_vector (hf : d.format = .vector) : d.Rereads s name ops n := by
  simp only [plan, hf, except_bind_eq_ok, except_guard_eq_ok, except_pure_eq_ok,
    Operands.requireImmediate_eq_ok, Operands.forbid_eq_ok] at h
  obtain ⟨_, ⟨v, hsrc, rfl⟩, _, hdst, hrange, rfl⟩ := h
  obtain rfl : 0 = n := hstand
  have hlt : v.toNat < 16 := by
    rw [gt_iff_lt, UInt32.lt_iff_toNat_lt] at hrange
    change ¬ 15 < v.toNat at hrange
    omega
  have hvalue : v.toUInt16.toNat < 2 ^ Field.vector.width := by
    rw [UInt32.toNat_toUInt16]
    change v.toNat % 65536 < 16
    omega
  have hop : Field.vector.set d.opcode v.toUInt16 = s.opcode := hop
  have hagree : AgreeOn (~~~d.format.operandMask) d.opcode s.opcode := by
    rw [AgreeOn, ← hop, hf]
    change _ = _ &&& ~~~0x000F
    rw [Field.set_and_of_disjoint (by decide) (by decide)]
    rfl
  have hback : (Field.vector.get s.opcode).toUInt32 = v := by
    rw [← hop, Field.get_set_of_lt (by decide) _ hvalue, ← UInt32.toNat_inj,
      UInt16.toNat_toUInt32, UInt32.toNat_toUInt16]
    omega
  have hfits := fits_of_none hd hagree (hf ▸ rfl) (hf ▸ rfl)
  have hread : d.format.read d.mnemonic s .start =
      .ok (d.mnemonic, ⟨none, some (.immediate v), none⟩) ⟨0, 0⟩ := by
    rw [hf]
    simp only [Format.read, Decoder.opcode_bind, Decoder.pure_eq_ok]
    exact ⟨by rw [hback], rfl⟩
  refine rereads_of hfits (hf ▸ rfl) (hf ▸ rfl) hread ⟨?_, by rw [hdst]; rfl, Operands.size_of_none rfl⟩
  rw [hsrc, hf]
  exact congrArg some (Eq.symm Ea.reduced_long)

include hregs

theorem rereads_toSpecial {reg : SpecialReg} (hf : d.format = .toSpecial reg) :
    d.Rereads s name ops n := by
  simp only [plan, hf, except_bind_eq_ok, except_pure_eq_ok, Operands.requireSpecial_eq_ok,
    Operands.require_eq_ok] at h
  obtain ⟨_, hsize, _, hdst, ea, ⟨hsrc, hin, hne⟩, rfl⟩ := h
  obtain ⟨rfl, hsame⟩ := hd.of_pickSize_single .word hsize (hf ▸ rfl)
  have hea := hregs.1 ea hsrc
  obtain ⟨hagree, hlow⟩ := of_ea hd (hf ▸ rfl) hea hne hop
  obtain ⟨mark, hread⟩ := Ea.readLow_of_standsIn (c := .start) hea hlow (Ext.of_stand_ea hstand)
  have hfits := fits_of_src hd hagree (hf ▸ rfl) (hf ▸ rfl) hlow hin
  have hread : d.format.read d.mnemonic s .start =
      .ok (d.mnemonic, ⟨some .word, some (ea.reduced .word), some (.special reg)⟩) ⟨n, mark⟩ := by
    rw [hf]
    simp only [Format.read, Decoder.opcode_bind, Decoder.bind_eq_ok, Decoder.pure_eq_ok]
    exact ⟨_, _, hread, rfl, rfl⟩
  exact rereads_of hfits (hf ▸ rfl) (hf ▸ rfl) hread
    ⟨by rw [hsrc, hf]; rfl, by rw [hdst, hf]; rfl, hsame⟩

theorem rereads_fromSpecial {reg : SpecialReg} (hf : d.format = .fromSpecial reg) :
    d.Rereads s name ops n := by
  simp only [plan, hf, except_bind_eq_ok, except_pure_eq_ok, Operands.requireSpecial_eq_ok,
    Operands.requireDataReg_eq_ok] at h
  obtain ⟨_, hsize, _, hsrc, _, ⟨r, hdst, rfl⟩, rfl⟩ := h
  obtain ⟨rfl, hsame⟩ := hd.of_pickSize_single .word hsize (hf ▸ rfl)
  obtain rfl : 0 = n := hstand
  obtain ⟨hagree, hreg⟩ := of_lowReg (hf ▸ rfl) (hregs.2 _ hdst) hop
  have hfits := fits_of_none hd hagree (hf ▸ rfl) (hf ▸ rfl)
  have hread : d.format.read d.mnemonic s .start =
      .ok (d.mnemonic, ⟨some .word, some (.special reg), some (.dataReg r)⟩) ⟨0, 0⟩ := by
    rw [hf]
    simp only [Format.read, Decoder.opcode_bind, Decoder.pure_eq_ok]
    exact ⟨by rw [hreg], rfl⟩
  exact rereads_of hfits (hf ▸ rfl) (hf ▸ rfl) hread
    ⟨by rw [hsrc, hf]; rfl, by rw [hdst, hf]; rfl, hsame⟩

theorem rereads_toUsp (hf : d.format = .toUsp) : d.Rereads s name ops n := by
  simp only [plan, hf, except_bind_eq_ok, except_pure_eq_ok, Operands.requireSpecial_eq_ok,
    Operands.requireAddrReg_eq_ok] at h
  obtain ⟨_, hsize, _, hdst, _, ⟨r, hsrc, rfl⟩, rfl⟩ := h
  obtain ⟨rfl, hsame⟩ := hd.of_pickSize_single .long hsize (hf ▸ rfl)
  obtain rfl : 0 = n := hstand
  obtain ⟨hagree, hreg⟩ := of_lowReg (hf ▸ rfl) (hregs.1 _ hsrc) hop
  have hfits := fits_of_none hd hagree (hf ▸ rfl) (hf ▸ rfl)
  have hread : d.format.read d.mnemonic s .start =
      .ok (d.mnemonic, ⟨some .long, some (.addrReg r), some (.special .usp)⟩) ⟨0, 0⟩ := by
    rw [hf]
    simp only [Format.read, Decoder.opcode_bind, Decoder.pure_eq_ok]
    exact ⟨by rw [hreg], rfl⟩
  exact rereads_of hfits (hf ▸ rfl) (hf ▸ rfl) hread
    ⟨by rw [hsrc, hf]; rfl, by rw [hdst, hf]; rfl, hsame⟩

theorem rereads_fromUsp (hf : d.format = .fromUsp) : d.Rereads s name ops n := by
  simp only [plan, hf, except_bind_eq_ok, except_pure_eq_ok, Operands.requireSpecial_eq_ok,
    Operands.requireAddrReg_eq_ok] at h
  obtain ⟨_, hsize, _, hsrc, _, ⟨r, hdst, rfl⟩, rfl⟩ := h
  obtain ⟨rfl, hsame⟩ := hd.of_pickSize_single .long hsize (hf ▸ rfl)
  obtain rfl : 0 = n := hstand
  obtain ⟨hagree, hreg⟩ := of_lowReg (hf ▸ rfl) (hregs.2 _ hdst) hop
  have hfits := fits_of_none hd hagree (hf ▸ rfl) (hf ▸ rfl)
  have hread : d.format.read d.mnemonic s .start =
      .ok (d.mnemonic, ⟨some .long, some (.special .usp), some (.addrReg r)⟩) ⟨0, 0⟩ := by
    rw [hf]
    simp only [Format.read, Decoder.opcode_bind, Decoder.pure_eq_ok]
    exact ⟨by rw [hreg], rfl⟩
  exact rereads_of hfits (hf ▸ rfl) (hf ▸ rfl) hread
    ⟨by rw [hsrc, hf]; rfl, by rw [hdst, hf]; rfl, hsame⟩

theorem rereads_control (hf : d.format = .control) : d.Rereads s name ops n := by
  simp only [plan, hf, except_bind_eq_ok, except_pure_eq_ok, Operands.require_eq_ok,
    Operands.requireControl_eq_ok] at h
  obtain ⟨_, hsize, ea, ⟨hsrc, hin, hne⟩, code, ⟨hdst, hcode⟩, rfl⟩ := h
  obtain ⟨rfl, hsame⟩ := hd.of_pickSize_single .long hsize (hf ▸ rfl)
  obtain ⟨hword, hn⟩ := Ext.of_stand_word hstand
  have hn : 1 = n := hn
  have hfits := fits_of_none hd (agree_bare hop) (hf ▸ rfl) (hf ▸ rfl)
  have hread : d.format.read d.mnemonic s .start =
      .ok (d.mnemonic, ⟨some .long, some ea, some (.special (.control code))⟩) ⟨n, 0⟩ := by
    rw [hf, ← hn]
    simp only [Format.read, Decoder.opcode_bind, Decoder.bind_eq_ok, Decoder.nextWord_eq_ok,
      Decoder.pure_eq_ok]
    refine ⟨_, _, ⟨hword, rfl⟩, ?_, rfl⟩
    cases ea with
    | dataReg r =>
      obtain ⟨hbank, hreg, hcode⟩ := of_controlWord 0 (by decide) (hregs.1 _ hsrc) hcode
      rw [hbank, hreg, hcode]
      rfl
    | addrReg r =>
      obtain ⟨hbank, hreg, hcode⟩ := of_controlWord 1 (by decide) (hregs.1 _ hsrc) hcode
      rw [hbank, hreg, hcode]
      rfl
    | regList _ | regPair _ _ | relative _ | special _ => exact absurd rfl hne
    | _ => exact absurd hin (by rw [Ea.modes]; decide)
  exact rereads_of hfits (hf ▸ rfl) (hf ▸ rfl) hread
    ⟨by rw [hsrc, hf]; exact congrArg some (Eq.symm Ea.reduced_long), by rw [hdst, hf]; rfl, hsame⟩

theorem rereads_cachePush (hf : d.format = .cachePush) : d.Rereads s name ops n := by
  simp only [plan, hf, except_bind_eq_ok, except_pure_eq_ok, Operands.requireCache_eq_ok,
    Operands.requireIndirect_eq_ok] at h
  obtain ⟨_, ⟨k, hsrc, hrange, rfl⟩, _, ⟨r, hdst, rfl⟩, rfl⟩ := h
  obtain rfl : 0 = n := hstand
  have hr : r.toUInt16.toNat < 2 ^ Field.lowReg.width := toNat_toUInt16_lt (hregs.2 _ hdst)
  have hk : k.toUInt16.toNat < 2 ^ Field.cache.width := by
    rw [UInt8.toNat_toUInt16]
    exact Nat.lt_succ_of_le (UInt8.le_iff_toNat_le.mp hrange.2)
  have hmask : d.format.operandMask = 0x00C7 := by rw [hf]; rfl
  have hop : Field.lowReg.set (Field.cache.set d.opcode k.toUInt16) r.toUInt16 = s.opcode := hop
  have hagree : AgreeOn (~~~d.format.operandMask) d.opcode s.opcode := by
    rw [AgreeOn, ← hop, hmask, Field.set_and_of_disjoint (by decide) (by decide),
      Field.set_and_of_disjoint (by decide) (by decide)]
  have hreg : (Field.lowReg.get s.opcode).toUInt8 = r := by
    rw [← hop, Field.get_set_of_lt (by decide) _ hr, UInt8.toUInt8_toUInt16]
  have hcache : (Field.cache.get s.opcode).toUInt8 = k := by
    rw [← hop, Field.get_set_of_disjoint (by decide) (by decide) (by decide),
      Field.get_set_of_lt (by decide) _ hk, UInt8.toUInt8_toUInt16]
  have hne : s.opcode &&& 0x00C0 ≠ 0 := by
    intro hclear
    rw [Field.get_of_and_eq (by decide) hclear (by decide)] at hcache
    rw [← hcache] at hrange
    exact absurd hrange.1 (by decide)
  have hfits : d.fits s.opcode = true := by
    refine fits_of hd hagree ?_ (by rw [hf]; trivial)
    have hexclusions : d.format.exclusions = [(0x00C0, 0)] := by rw [hf]; rfl
    rw [hexclusions]
    exact List.forall_mem_singleton.mpr hne
  have hread : d.format.read d.mnemonic s .start =
      .ok (d.mnemonic, ⟨none, some (.special (.cache k)), some (.indirect r)⟩) ⟨0, 0⟩ := by
    rw [hf]
    simp only [Format.read, Decoder.opcode_bind, Decoder.pure_eq_ok]
    exact ⟨by rw [hreg, hcache], rfl⟩
  exact rereads_of hfits (hf ▸ rfl) (hf ▸ rfl) hread
    ⟨by rw [hsrc, hf]; rfl, by rw [hdst, hf]; rfl, Operands.size_of_none rfl⟩

theorem rereads_cacheTouch (hf : d.format = .cacheTouch) : d.Rereads s name ops n := by
  simp only [plan, hf, except_bind_eq_ok, except_pure_eq_ok, Operands.forbid_eq_ok,
    Operands.requireIndirect_eq_ok] at h
  obtain ⟨_, hsrc, _, ⟨r, hdst, rfl⟩, rfl⟩ := h
  obtain rfl : 0 = n := hstand
  obtain ⟨hagree, hreg⟩ := of_lowReg (hf ▸ rfl) (hregs.2 _ hdst) hop
  have hfits := fits_of_none hd hagree (hf ▸ rfl) (hf ▸ rfl)
  have hread : d.format.read d.mnemonic s .start =
      .ok (d.mnemonic, ⟨none, none, some (.indirect r)⟩) ⟨0, 0⟩ := by
    rw [hf]
    simp only [Format.read, Decoder.opcode_bind, Decoder.pure_eq_ok]
    exact ⟨by rw [hreg], rfl⟩
  exact rereads_of hfits (hf ▸ rfl) (hf ▸ rfl) hread
    ⟨by rw [hsrc]; rfl, by rw [hdst, hf]; rfl, Operands.size_of_none rfl⟩

end Formats

end Definition

end ColdFire
