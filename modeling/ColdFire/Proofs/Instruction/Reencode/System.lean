import ColdFire.Proofs.Instruction.Reencode.Basic

namespace ColdFire

namespace Format

theorem offsetFits_word {x : Int16} (h : x.toInt32 ≠ 0) : offsetFits x.toInt32 .word = true := by
  have hlo := x.le_toInt
  have hhi := x.toInt_lt
  simp only [offsetFits, Bool.and_eq_true, bne_iff_ne, decide_eq_true_eq, Int32.le_iff_toInt_le,
    Int16.toInt_toInt32]
  change _ ∧ (-0x8000 : Int) ≤ _ ∧ _ ≤ (0x7FFF : Int)
  exact ⟨h, by omega, by omega⟩

theorem offsetFits_byte {x : Int8} (h : x.toInt32 ≠ 0) (hmark : x.toInt32 ≠ -1) :
    offsetFits x.toInt32 .byte = true := by
  have hlo := x.le_toInt
  have hhi := x.toInt_lt
  simp only [offsetFits, Bool.and_eq_true, bne_iff_ne, decide_eq_true_eq, Int32.le_iff_toInt_le,
    Int8.toInt_toInt32]
  change _ ∧ (_ ∧ (-128 : Int) ≤ _) ∧ _ ≤ (127 : Int)
  exact ⟨h, ⟨hmark, by omega⟩, by omega⟩

end Format

namespace Definition

variable {d : Definition} {s : WordSource} {c : Cursor} {size : Size}

section Formats

variable (hd : d.Regular) (hfits : d.fits s.opcode = true) {name : String} {ops : Operands}
  (h : d.format.read d.mnemonic s .start = .ok (name, ops) c)

include hd hfits h

theorem recovers_branch (hzero : ops.src ≠ some (.relative 0)) (hf : d.format = .branch) :
    d.Recovers s name ops c.consumed := by
  simp only [hf, Format.read, Decoder.opcode_bind] at h
  have hop := ((agree hd hfits 0x00FF (hf ▸ rfl)).set_get (f := .branchDisp) (by decide)).eq_of_all
  split at h
  · rename_i hshort
    simp only [Decoder.bind_pure_eq_ok, Decoder.nextWord_eq_ok] at h
    obtain ⟨w, ⟨hw, rfl⟩, ⟨⟩⟩ := h
    have hoff : w.toInt16.toInt32 ≠ 0 := fun hoff => hzero (by rw [hoff])
    have hroom : d.opcode &&& Field.branchDisp.mask = 0 := opcode_and hd (by rw [hf]; decide)
    have hword : w.toInt16.toInt32.toInt16.toUInt16 = w := by
      rw [Int16.toInt16_toInt32, UInt16.toUInt16_toInt16]
    rw [hshort, Field.set_zero (by decide) hroom] at hop
    refine recovers_of hop (Ext.stand_word (hword.symm ▸ hw) Ext.stand_nil) ?_
    simp only [plan, hf, except_bind_eq_ok]
    refine ⟨_, Operands.requireTarget_eq_ok.2 ⟨rfl, rfl⟩, .word, rfl, ?_⟩
    rw [Format.offsetFits_word hoff]
    rfl
  · rename_i hshort
    rw [Decoder.pure_eq_ok] at h
    obtain ⟨⟨⟩, rfl⟩ := h
    have hword : (Field.branchDisp.get s.opcode).toUInt8.toInt8.toInt32.toInt8.toUInt8.toUInt16 =
        Field.branchDisp.get s.opcode := by
      rw [Int8.toInt8_toInt32, UInt8.toUInt8_toInt8,
        Field.toUInt16_toUInt8_get (by decide) (by decide)]
    have hoff : (Field.branchDisp.get s.opcode).toUInt8.toInt8.toInt32 ≠ 0 :=
      fun hoff => hzero (by rw [hoff])
    have hmark : (Field.branchDisp.get s.opcode).toUInt8.toInt8.toInt32 ≠ -1 := by
      intro hoff
      rw [hoff] at hword
      exact get_ne_of_excluded hfits (f := .branchDisp) (by decide) 0xFF
        (by rw [hd.exclusions, hf]; decide) hword.symm
    rw [← hword] at hop
    refine recovers_of hop Ext.stand_nil ?_
    simp only [plan, hf, except_bind_eq_ok]
    refine ⟨_, Operands.requireTarget_eq_ok.2 ⟨rfl, rfl⟩, .byte, rfl, ?_⟩
    rw [Format.offsetFits_byte hoff hmark]
    rfl

theorem recovers_longBranch (hzero : ops.src ≠ some (.relative 0)) (hf : d.format = .longBranch) :
    d.Recovers s name ops c.consumed := by
  simp only [hf, Format.read, Decoder.opcode_bind, Decoder.bind_pure_eq_ok, Ea.nextLong_eq_ok] at h
  obtain ⟨v, ⟨hv, rfl⟩, ⟨⟩⟩ := h
  have hoff : Format.offsetFits v.toInt32 .long = true := by
    have hne : v.toInt32 ≠ 0 := fun hoff => hzero (by rw [hoff])
    simpa [Format.offsetFits] using hne
  refine recovers_of (opword_bare hd hfits (hf ▸ rfl)) (Ext.stand_long hv Ext.stand_nil) ?_
  simp only [plan, hf, except_bind_eq_ok]
  refine ⟨_, Operands.requireTarget_eq_ok.2 ⟨rfl, rfl⟩, ?_⟩
  rw [hoff]
  rfl

theorem recovers_tpf (hf : d.format = .tpf) : d.Recovers s name ops c.consumed := by
  simp only [hf, Format.read, Decoder.opcode_bind] at h
  have hop := ((agree hd hfits 0x0007 (hf ▸ rfl)).set_get (f := .lowReg) (by decide)).eq_of_all
  rcases eq_of_lt_eight (Field.toNat_get_lt (f := .lowReg) (by decide) s.opcode)
    with hget | hget | hget | hget | hget | hget | hget | hget
  case inr.inr.inl =>
    rw [hget, if_pos (by decide)] at h
    simp only [Decoder.bind_pure_eq_ok, Decoder.nextWord_eq_ok] at h
    obtain ⟨w, ⟨hw, rfl⟩, ⟨⟩⟩ := h
    rw [hget] at hop
    refine recovers_of hop (Ext.stand_word hw Ext.stand_nil) ?_
    simp only [plan, hf, except_bind_eq_ok, except_pure_eq_ok]
    exact ⟨(), rfl, _, Operands.requireImmediate_eq_ok.2 ⟨_, rfl, rfl⟩, by simp⟩
  case inr.inr.inr.inl =>
    rw [hget, if_neg (by decide), if_pos (by decide)] at h
    simp only [Decoder.bind_pure_eq_ok, Ea.nextLong_eq_ok] at h
    obtain ⟨v, ⟨hv, rfl⟩, ⟨⟩⟩ := h
    rw [hget] at hop
    refine recovers_of hop (Ext.stand_long hv Ext.stand_nil) ?_
    simp only [plan, hf, except_bind_eq_ok, except_pure_eq_ok]
    exact ⟨(), rfl, _, Operands.requireImmediate_eq_ok.2 ⟨_, rfl, rfl⟩, rfl⟩
  case inr.inr.inr.inr.inl =>
    rw [hget, if_neg (by decide), if_neg (by decide), Decoder.pure_eq_ok] at h
    obtain ⟨⟨⟩, rfl⟩ := h
    rw [hget] at hop
    refine recovers_of hop Ext.stand_nil ?_
    simp only [plan, hf, except_bind_eq_ok, except_pure_eq_ok]
    exact ⟨(), rfl, (), rfl, trivial⟩
  all_goals
    refine absurd hget (get_ne_of_excluded hfits (by decide) _ ?_)
    rw [hd.exclusions, hf]
    decide

theorem recovers_bare (hf : d.format = .bare) : d.Recovers s name ops c.consumed := by
  simp only [hf, Format.read, Decoder.opcode_bind, Decoder.pure_eq_ok] at h
  obtain ⟨⟨⟩, rfl⟩ := h
  refine recovers_of (opword_bare hd hfits (hf ▸ rfl)) Ext.stand_nil ?_
  simp only [plan, hf, except_bind_eq_ok, except_pure_eq_ok]
  exact ⟨(), rfl, (), rfl, trivial⟩

theorem recovers_immWord (hf : d.format = .immWord) : d.Recovers s name ops c.consumed := by
  simp only [hf, Format.read, Decoder.opcode_bind, Decoder.bind_pure_eq_ok,
    Decoder.nextWord_eq_ok] at h
  obtain ⟨w, ⟨hw, rfl⟩, ⟨⟩⟩ := h
  refine recovers_of (opword_bare hd hfits (hf ▸ rfl)) (Ext.stand_word hw Ext.stand_nil) ?_
  simp only [plan, hf, except_bind_eq_ok, except_pure_eq_ok]
  exact ⟨_, Operands.requireImmediate_eq_ok.2 ⟨_, rfl, rfl⟩, (), rfl, by simp⟩

theorem recovers_vector (hf : d.format = .vector) : d.Recovers s name ops c.consumed := by
  simp only [hf, Format.read, Decoder.opcode_bind, Decoder.pure_eq_ok] at h
  obtain ⟨⟨⟩, rfl⟩ := h
  have hop := ((agree hd hfits 0x000F (hf ▸ rfl)).set_get (f := .vector) (by decide)).eq_of_all
  have hrange : ¬ (Field.vector.get s.opcode).toUInt32 > 15 := by
    have hlt := Field.toNat_get_lt (f := .vector) (by decide) s.opcode
    rw [gt_iff_lt, UInt32.lt_iff_toNat_lt, UInt16.toNat_toUInt32]
    change ¬ 15 < _
    change _ < 16 at hlt
    omega
  refine recovers_of hop Ext.stand_nil ?_
  simp only [plan, hf, except_bind_eq_ok]
  refine ⟨_, Operands.requireImmediate_eq_ok.2 ⟨_, rfl, rfl⟩, (), rfl, ?_⟩
  rw [if_neg hrange, UInt16.toUInt16_toUInt32]
  rfl

theorem recovers_toSpecial {reg : SpecialReg} (hf : d.format = .toSpecial reg) :
    d.Recovers s name ops c.consumed := by
  simp only [hf, Format.read, Decoder.opcode_bind, Decoder.bind_pure_eq_ok] at h
  obtain ⟨ea, hea, ⟨⟩⟩ := h
  obtain ⟨hfield, hmode, hstand⟩ := Ea.of_readLow hea
  have hsize := hd.pickSize .word (hf ▸ List.mem_singleton_self _)
  have hsrc : Operands.require d.mnemonic "source" (some ea) d.srcModes = .ok ea :=
    require_src hd hfits (hf ▸ rfl) hmode
  refine recovers_of (opword_ea hd hfits (hf ▸ rfl) hfield) (Ext.stand_ea hstand Ext.stand_nil) ?_
  simp only [plan, hf, except_bind_eq_ok, except_pure_eq_ok]
  exact ⟨.word, hsize, (), Operands.requireSpecial_eq_ok.2 rfl, ea, hsrc, rfl⟩

theorem recovers_fromSpecial {reg : SpecialReg} (hf : d.format = .fromSpecial reg) :
    d.Recovers s name ops c.consumed := by
  simp only [hf, Format.read, Decoder.opcode_bind, Decoder.pure_eq_ok] at h
  obtain ⟨⟨⟩, rfl⟩ := h
  have hsize := hd.pickSize .word (hf ▸ List.mem_singleton_self _)
  refine recovers_of (opword_lowReg hd hfits (hf ▸ rfl)) Ext.stand_nil ?_
  simp only [plan, hf, except_bind_eq_ok, except_pure_eq_ok]
  exact ⟨.word, hsize, (), Operands.requireSpecial_eq_ok.2 rfl, _,
    Operands.requireDataReg_eq_ok.2 ⟨_, rfl, rfl⟩, rfl⟩

theorem recovers_toUsp (hf : d.format = .toUsp) : d.Recovers s name ops c.consumed := by
  simp only [hf, Format.read, Decoder.opcode_bind, Decoder.pure_eq_ok] at h
  obtain ⟨⟨⟩, rfl⟩ := h
  have hsize := hd.pickSize .long (hf ▸ List.mem_singleton_self _)
  refine recovers_of (opword_lowReg hd hfits (hf ▸ rfl)) Ext.stand_nil ?_
  simp only [plan, hf, except_bind_eq_ok, except_pure_eq_ok]
  exact ⟨.long, hsize, (), Operands.requireSpecial_eq_ok.2 rfl, _,
    Operands.requireAddrReg_eq_ok.2 ⟨_, rfl, rfl⟩, rfl⟩

theorem recovers_fromUsp (hf : d.format = .fromUsp) : d.Recovers s name ops c.consumed := by
  simp only [hf, Format.read, Decoder.opcode_bind, Decoder.pure_eq_ok] at h
  obtain ⟨⟨⟩, rfl⟩ := h
  have hsize := hd.pickSize .long (hf ▸ List.mem_singleton_self _)
  refine recovers_of (opword_lowReg hd hfits (hf ▸ rfl)) Ext.stand_nil ?_
  simp only [plan, hf, except_bind_eq_ok, except_pure_eq_ok]
  exact ⟨.long, hsize, (), Operands.requireSpecial_eq_ok.2 rfl, _,
    Operands.requireAddrReg_eq_ok.2 ⟨_, rfl, rfl⟩, rfl⟩

theorem recovers_control (hf : d.format = .control) : d.Recovers s name ops c.consumed := by
  simp only [hf, Format.read, Decoder.opcode_bind, Decoder.bind_pure_eq_ok,
    Decoder.nextWord_eq_ok] at h
  obtain ⟨ext, ⟨hext, rfl⟩, ⟨⟩⟩ := h
  have hsize := hd.pickSize .long (hf ▸ List.mem_singleton_self _)
  have hword := ((((AgreeOn.nothing 0 ext).set_get (f := .controlBank) (by decide)).set_get (f := .controlReg)
    (by decide)).set_get (f := .controlCode) (by decide)).eq_of_all
  rw [← Field.toUInt16_toUInt8_get (f := .controlReg) (by decide) (by decide)] at hword
  have hcode : Field.controlCode.get ext ≤ 0xFFF := by
    have hlt := Field.toNat_get_lt (f := .controlCode) (by decide) ext
    rw [UInt16.le_iff_toNat_le]
    exact Nat.le_of_lt_succ hlt
  have hdst := Operands.requireControl_eq_ok (m := d.mnemonic).mpr ⟨rfl, hcode⟩
  rcases eq_zero_or_eq_one (Field.toNat_get_lt (f := .controlBank) (by decide) ext)
    with hbank | hbank
  · rw [hbank] at hword
    rw [if_neg (not_not.mpr hbank)]
    refine recovers_of (opword_bare hd hfits (hf ▸ rfl))
      (Ext.stand_word (hword.symm ▸ hext) Ext.stand_nil) ?_
    simp only [plan, hf, except_bind_eq_ok, except_pure_eq_ok]
    have hmode : (Modes.dn ∪ .an).contains .dn = true ∧ Modes.dn ≠ .none := by decide
    exact ⟨.long, hsize, _, Operands.require_eq_ok.2 ⟨rfl, hmode⟩, _, hdst, rfl⟩
  · rw [hbank] at hword
    rw [if_pos (by rw [hbank]; decide)]
    refine recovers_of (opword_bare hd hfits (hf ▸ rfl))
      (Ext.stand_word (hword.symm ▸ hext) Ext.stand_nil) ?_
    simp only [plan, hf, except_bind_eq_ok, except_pure_eq_ok]
    have hmode : (Modes.dn ∪ .an).contains .an = true ∧ Modes.an ≠ .none := by decide
    exact ⟨.long, hsize, _, Operands.require_eq_ok.2 ⟨rfl, hmode⟩, _, hdst, rfl⟩

theorem recovers_cachePush (hf : d.format = .cachePush) : d.Recovers s name ops c.consumed := by
  simp only [hf, Format.read, Decoder.opcode_bind, Decoder.pure_eq_ok] at h
  obtain ⟨⟨⟩, rfl⟩ := h
  have hop := (((agree hd hfits 0x00C7 (hf ▸ rfl)).set_get (f := .cache) (by decide)).set_get
    (f := .lowReg) (by decide)).eq_of_all
  have hne : Field.cache.get s.opcode ≠ 0 :=
    get_ne_of_excluded hfits (by decide) 0 (by rw [hd.exclusions, hf]; decide)
  have hrange : 1 ≤ (Field.cache.get s.opcode).toUInt8 ∧ (Field.cache.get s.opcode).toUInt8 ≤ 3 := by
    rcases eq_of_lt_four (Field.toNat_get_lt (f := .cache) (by decide) s.opcode)
      with hget | hget | hget | hget
    · exact absurd hget hne
    all_goals rw [hget]; decide
  rw [← Field.toUInt16_toUInt8_get (f := .cache) (by decide) (by decide),
    ← Field.toUInt16_toUInt8_get (f := .lowReg) (by decide) (by decide)] at hop
  refine recovers_of hop Ext.stand_nil ?_
  simp only [plan, hf, except_bind_eq_ok, except_pure_eq_ok]
  exact ⟨_, Operands.requireCache_eq_ok.2 ⟨_, rfl, hrange, rfl⟩, _,
    Operands.requireIndirect_eq_ok.2 ⟨_, rfl, rfl⟩, rfl⟩

theorem recovers_loadStatus (hf : d.format = .loadStatus) : d.Recovers s name ops c.consumed := by
  simp only [hf, Format.read, Decoder.opcode_bind, Decoder.bind_eq_ok, Decoder.nextWord_eq_ok] at h
  obtain ⟨first, _, ⟨hfirst, rfl⟩, h⟩ := h
  split at h
  · exact absurd h Decoder.reserved_ne_ok
  rename_i hmark
  simp only [Decoder.bind_pure_eq_ok, Decoder.nextWord_eq_ok] at h
  obtain ⟨w, ⟨hw, rfl⟩, ⟨⟩⟩ := h
  rw [not_not.mp hmark] at hfirst
  refine recovers_of (opword_bare hd hfits (hf ▸ rfl))
    (Ext.stand_word hfirst (Ext.stand_word hw Ext.stand_nil)) ?_
  simp only [plan, hf, except_bind_eq_ok, except_pure_eq_ok]
  exact ⟨_, Operands.requireImmediate_eq_ok.2 ⟨_, rfl, rfl⟩, (), rfl, by simp⟩

theorem recovers_cacheTouch (hf : d.format = .cacheTouch) : d.Recovers s name ops c.consumed := by
  simp only [hf, Format.read, Decoder.opcode_bind, Decoder.pure_eq_ok] at h
  obtain ⟨⟨⟩, rfl⟩ := h
  refine recovers_of (opword_lowReg hd hfits (hf ▸ rfl)) Ext.stand_nil ?_
  simp only [plan, hf, except_bind_eq_ok, except_pure_eq_ok]
  exact ⟨(), rfl, _, Operands.requireIndirect_eq_ok.2 ⟨_, rfl, rfl⟩, rfl⟩

end Formats

end Definition

end ColdFire
