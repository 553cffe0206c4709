import ColdFire.Operand.Code
import ColdFire.Proofs.Instruction.WordSource
import ColdFire.Proofs.Word.Field
import ColdFire.Proofs.Word.Width

namespace ColdFire

namespace IndexReg

theorem scaleCode?_shift {x : UInt16} (h : x.toNat < 4) :
    scaleCode? (1 <<< x.toUInt8) = some x := by
  rcases eq_of_lt_four h with rfl | rfl | rfl | rfl <;> rfl

theorem scaleCode?_eq_some {scale : UInt8} {code : UInt16} (h : scaleCode? scale = some code) :
    code.toNat < 4 ∧ 1 <<< code.toUInt8 = scale := by
  unfold scaleCode? at h
  split at h <;> cases h
  all_goals exact ⟨by decide, rfl⟩

/-- The index register and the displacement that a word holds write the word again, if the bit of the
longer format is clear. -/
theorem briefWord?_ofBrief {w : UInt16} (h : w &&& 0x0100 = 0) :
    (ofBrief w).briefWord? (Field.briefDisp.get w).toUInt8.toInt8 = some w := by
  have hscale := Field.toNat_get_lt (f := .briefScale) (by decide) w
  have hreg := Field.toNat_get_lt (f := .briefReg) (by decide) w
  have hdisp := Field.toNat_get_lt (f := .briefDisp) (by decide) w
  have hagree : AgreeOn 0x0100 0 w := by rw [AgreeOn, h]; rfl
  have hall := ((((hagree.set_get (f := .briefBank) (by decide)).set_get
    (f := .briefReg) (by decide)).set_get (f := .briefLong) (by decide)).set_get
    (f := .briefScale) (by decide)).set_get (f := .briefDisp) (by decide)
  have hw := AgreeOn.eq_of_all hall
  simp only [briefWord?, ofBrief, scaleCode?_shift hscale, Option.map_some]
  rw [toUInt16_ne_zero (Field.toNat_get_lt (f := .briefBank) (by decide) w),
    toUInt16_ne_zero (Field.toNat_get_lt (f := .briefLong) (by decide) w),
    toUInt16_toUInt8 (hreg.trans (by decide)), UInt8.toUInt8_toInt8,
    toUInt16_toUInt8 hdisp, hw]

theorem ofBrief_briefWord? {disp : Int8} {ix : IndexReg} {w : UInt16} (hreg : ix.reg < 8)
    (h : ix.briefWord? disp = some w) :
    w &&& 0x0100 = 0 ∧ (Field.briefDisp.get w).toUInt8.toInt8 = disp ∧ ofBrief w = ix := by
  obtain ⟨code, hcode, rfl⟩ := Option.map_eq_some_iff.mp h
  obtain ⟨hlt, hscale⟩ := scaleCode?_eq_some hcode
  have hcode : code.toNat < 2 ^ Field.briefScale.width := hlt
  have hreg : ix.reg.toUInt16.toNat < 2 ^ Field.briefReg.width := toNat_toUInt16_lt hreg
  have hdisp : disp.toUInt8.toUInt16.toNat < 2 ^ Field.briefDisp.width := disp.toUInt8.toNat_lt
  have hbank : ix.addr.toUInt16.toNat < 2 ^ Field.briefBank.width := toNat_toUInt16_lt_two _
  have hlong : ix.long.toUInt16.toNat < 2 ^ Field.briefLong.width := toNat_toUInt16_lt_two _
  refine ⟨?_, ?_, ?_⟩
  · simp (disch := decide) only [Field.set_and_of_disjoint]
    rfl
  · rw [Field.get_set_of_lt (by decide) _ hdisp]
    simp
  · simp (disch := first | decide | assumption) only [ofBrief, Field.get_set_of_disjoint,
      Field.get_set_of_lt, toUInt16_bne_zero, hscale, UInt8.toUInt8_toUInt16]

end IndexReg

namespace Ea

def RegistersExist : Ea → Prop
  | dataReg r | addrReg r | indirect r | postInc r | preDec r | disp r _ => r < 8
  | index r _ ix => r < 8 ∧ ix.reg < 8
  | pcIndex _ ix => ix.reg < 8
  | regPair r q => r < 8 ∧ q < 8
  | absShort _ | absLong _ | pcDisp _ | immediate _ | regList _ | relative _ | special _ => True

/-- An operand as its extension words hold it: of an immediate, the part that belongs to a size. -/
def reduced (size : Size) : Ea → Ea
  | immediate v => immediate (v &&& size.mask)
  | ea => ea

/-- The extension words of an operand stand behind an opcode word, from `i` up to `j`. -/
def StandsIn (ea : Ea) (size : Size) (s : WordSource) (i j : Nat) : Prop :=
  ∃ ws, ea.words size = .ok ws ∧ s.Holds i ws ∧ j = i + ws.length

variable {s : WordSource} {c c' : Cursor} {ea : Ea} {size : Size} {i j : Nat}

theorem standsIn_of_word {w : UInt16} (hw : ea.words size = .ok [w]) (h : s.extension i = .ok w) :
    ea.StandsIn size s i (i + 1) :=
  ⟨[w], hw, ⟨h, trivial⟩, rfl⟩

theorem standsIn_of_none (hw : ea.words size = .ok []) : ea.StandsIn size s i i :=
  ⟨[], hw, trivial, rfl⟩

theorem toNat_joinWords (high low : UInt16) :
    ((high.toUInt32 <<< 16) ||| low.toUInt32).toNat = high.toNat * 65536 + low.toNat := by
  have hhigh := high.toNat_lt
  have hlow := low.toNat_lt
  rw [UInt32.toNat_or, UInt32.toNat_shiftLeft, UInt16.toNat_toUInt32, UInt16.toNat_toUInt32]
  have hshift : high.toNat <<< ((16 : UInt32).toNat % 32) % 2 ^ 32 = high.toNat <<< 16 := by
    rw [show (16 : UInt32).toNat % 32 = 16 from rfl, Nat.shiftLeft_eq]
    exact Nat.mod_eq_of_lt (by omega)
  rw [hshift, ← Nat.shiftLeft_add_eq_or_of_lt hlow, Nat.shiftLeft_eq]

theorem longWords_join (high low : UInt16) :
    longWords ((high.toUInt32 <<< 16) ||| low.toUInt32) = [high, low] := by
  have hlow := low.toNat_lt
  have hjoin := toNat_joinWords high low
  unfold longWords
  rw [List.cons.injEq, List.cons.injEq, ← UInt16.toNat_inj, ← UInt16.toNat_inj]
  refine ⟨?_, ?_, rfl⟩
  · rw [UInt32.toNat_toUInt16, UInt32.toNat_shiftRight, hjoin]
    change (high.toNat * 65536 + low.toNat) >>> 16 % 65536 = high.toNat
    have := high.toNat_lt
    rw [Nat.shiftRight_eq_div_pow]
    omega
  · rw [UInt32.toNat_toUInt16, hjoin]
    omega

theorem join_longWords (v : UInt32) :
    ((v >>> 16).toUInt16.toUInt32 <<< 16) ||| v.toUInt16.toUInt32 = v := by
  rw [← UInt32.toNat_inj, toNat_joinWords, UInt32.toNat_toUInt16, UInt32.toNat_toUInt16,
    UInt32.toNat_shiftRight]
  change (v.toNat >>> 16) % 65536 * 65536 + v.toNat % 65536 = v.toNat
  have := v.toNat_lt
  rw [Nat.shiftRight_eq_div_pow]
  omega

theorem nextLong_eq_ok {v : UInt32} : Decoder.nextLong s c = .ok v c' ↔
    s.Holds c.consumed (longWords v) ∧ c' = ⟨c.consumed + 2, c.pcMark⟩ := by
  simp only [Decoder.nextLong, Decoder.bind_eq_ok, Decoder.nextWord_eq_ok, Decoder.pure_eq_ok]
  constructor
  · rintro ⟨high, c₁, ⟨hhigh, rfl⟩, low, c₂, ⟨hlow, rfl⟩, rfl, rfl⟩
    rw [longWords_join]
    exact ⟨⟨hhigh, hlow, trivial⟩, rfl⟩
  · rintro ⟨⟨hhigh, hlow, -⟩, rfl⟩
    exact ⟨_, _, ⟨hhigh, rfl⟩, _, _, ⟨hlow, rfl⟩, join_longWords v, rfl⟩
theorem readBrief_eq_ok {d : Int8} {ix : IndexReg} (h : readBrief s c = .ok (d, ix) c') :
    ∃ w, ix.briefWord? d = some w ∧ s.extension c.consumed = .ok w ∧
      c' = ⟨c.consumed + 1, c.pcMark⟩ := by
  simp only [readBrief, Decoder.bind_eq_ok, Decoder.nextWord_eq_ok] at h
  obtain ⟨w, c₁, ⟨hw, rfl⟩, h⟩ := h
  split at h
  · simp at h
  · rename_i hclear
    rw [Decoder.pure_eq_ok, Prod.mk.injEq] at h
    obtain ⟨⟨rfl, rfl⟩, rfl⟩ := h
    exact ⟨w, IndexReg.briefWord?_ofBrief (not_not.mp hclear), hw, rfl⟩

theorem readImmediate_eq_ok (h : readImmediate size s c = .ok ea c') :
    ∃ v, ea = immediate v ∧ ea.StandsIn size s c.consumed c'.consumed := by
  cases size with
  | byte =>
    simp only [readImmediate, Decoder.bind_eq_ok, Decoder.nextWord_eq_ok] at h
    obtain ⟨w, c₁, ⟨hw, rfl⟩, h⟩ := h
    split at h
    · simp at h
    · rename_i hsmall
      rw [Decoder.pure_eq_ok] at h
      obtain ⟨rfl, rfl⟩ := h
      have hlt : w.toNat < 256 := by
        rw [gt_iff_lt, UInt16.lt_iff_toNat_lt] at hsmall
        change ¬ 255 < w.toNat at hsmall
        omega
      have hword : w.toUInt32.toUInt8.toUInt16 = w := toUInt16_toUInt8 hlt
      refine ⟨_, rfl, standsIn_of_word ?_ hw⟩
      rw [words, hword]
  | word =>
    simp only [readImmediate, Decoder.bind_eq_ok, Decoder.nextWord_eq_ok, Decoder.pure_eq_ok] at h
    obtain ⟨w, c₁, ⟨hw, rfl⟩, rfl, rfl⟩ := h
    exact ⟨_, rfl, standsIn_of_word (by simp [words]) hw⟩
  | long =>
    simp only [readImmediate, Decoder.bind_eq_ok, nextLong_eq_ok, Decoder.pure_eq_ok] at h
    obtain ⟨v, c₁, ⟨hv, rfl⟩, rfl, rfl⟩ := h
    exact ⟨_, rfl, longWords v, rfl, hv, rfl⟩

theorem of_read_seven {reg : UInt16} (hr : reg.toNat < 8) (h : read 7 reg size s c = .ok ea c') :
    ea.field? = some (7, reg) ∧ Modes.ofField? 7 reg = some ea.modes ∧
      ea.StandsIn size s c.consumed c'.consumed := by
  have hm : (7 : UInt16).toNat < 8 := by decide
  rcases eq_of_lt_eight hr with rfl | rfl | rfl | rfl | rfl | rfl | rfl | rfl
  all_goals
    simp only [read, and_seven hm, and_seven hr, UInt16.reduceToNat, Decoder.bind_eq_ok,
      Decoder.nextWord_eq_ok, Decoder.markPcRelative_eq_ok, Decoder.pure_eq_ok, nextLong_eq_ok,
      Decoder.undecodable_ne_ok] at h
  · obtain ⟨w, _, ⟨hw, rfl⟩, rfl, rfl⟩ := h
    exact ⟨rfl, rfl, standsIn_of_word (by simp [words]) hw⟩
  · obtain ⟨v, _, ⟨hv, rfl⟩, rfl, rfl⟩ := h
    exact ⟨rfl, rfl, longWords v, rfl, hv, rfl⟩
  · obtain ⟨_, _, rfl, w, _, ⟨hw, rfl⟩, rfl, rfl⟩ := h
    exact ⟨rfl, rfl, standsIn_of_word (by simp [words]) hw⟩
  · obtain ⟨_, _, rfl, ⟨d, ix⟩, _, hbrief, rfl, rfl⟩ := h
    obtain ⟨w, hword, hw, rfl⟩ := readBrief_eq_ok hbrief
    exact ⟨rfl, rfl, standsIn_of_word (by rw [words, briefWords, hword]) hw⟩
  · obtain ⟨v, rfl, hv⟩ := readImmediate_eq_ok h
    exact ⟨rfl, rfl, hv⟩

/-- An operand that was read belongs to its field, and it writes the words that it was read from. -/
theorem of_read {mode reg : UInt16} (hm : mode.toNat < 8) (hr : reg.toNat < 8)
    (h : read mode reg size s c = .ok ea c') :
    ea.field? = some (mode, reg) ∧ Modes.ofField? mode reg = some ea.modes ∧
      ea.StandsIn size s c.consumed c'.consumed := by
  have hreg : reg.toUInt8.toUInt16 = reg := toUInt16_toUInt8 (by omega)
  rcases eq_of_lt_eight hm with rfl | rfl | rfl | rfl | rfl | rfl | rfl | rfl
  case inr.inr.inr.inr.inr.inr.inr => exact of_read_seven hr h
  all_goals
    simp only [read, and_seven hm, UInt16.reduceToNat, Decoder.bind_eq_ok,
      Decoder.nextWord_eq_ok, Decoder.pure_eq_ok] at h
  case inr.inr.inr.inr.inr.inl =>
    obtain ⟨w, _, ⟨hw, rfl⟩, rfl, rfl⟩ := h
    exact ⟨by rw [field?, hreg], rfl, standsIn_of_word (by simp [words]) hw⟩
  case inr.inr.inr.inr.inr.inr.inl =>
    obtain ⟨⟨d, ix⟩, _, hbrief, rfl, rfl⟩ := h
    obtain ⟨w, hword, hw, rfl⟩ := readBrief_eq_ok hbrief
    exact ⟨by rw [field?, hreg], rfl, standsIn_of_word (by rw [words, briefWords, hword]) hw⟩
  -- The other modes have no extension word.
  all_goals
    obtain ⟨rfl, rfl⟩ := h
    exact ⟨by rw [field?, hreg], rfl, standsIn_of_none rfl⟩

theorem briefWords_eq_ok {d : Int8} {ix : IndexReg} {ws : List UInt16}
    (h : briefWords d ix = .ok ws) : ∃ w, ix.briefWord? d = some w ∧ ws = [w] := by
  unfold briefWords at h
  split at h
  · rename_i w hw
    exact ⟨w, hw, (Except.ok.inj h).symm⟩
  · cases h

theorem readBrief_of_word {d : Int8} {ix : IndexReg} {w : UInt16} (hreg : ix.reg < 8)
    (hword : ix.briefWord? d = some w) (hw : s.extension c.consumed = .ok w) :
    readBrief s c = .ok (d, ix) ⟨c.consumed + 1, c.pcMark⟩ := by
  obtain ⟨hclear, hdisp, hix⟩ := IndexReg.ofBrief_briefWord? hreg hword
  rw [readBrief, Decoder.bind_eq_ok]
  refine ⟨w, _, Decoder.nextWord_eq_ok.2 ⟨hw, rfl⟩, ?_⟩
  rw [if_neg (not_not.mpr hclear), hdisp, hix]
  rfl

theorem readImmediate_of_words {v : UInt32} {ws : List UInt16}
    (hw : (immediate v).words size = .ok ws) (hs : s.Holds c.consumed ws) :
    readImmediate size s c = .ok ((immediate v).reduced size) ⟨c.consumed + ws.length, c.pcMark⟩ := by
  cases size with
  | byte =>
    cases hw
    have hsmall : ¬ v.toUInt8.toUInt16 > 0xFF := by
      rw [gt_iff_lt, UInt16.lt_iff_toNat_lt]
      have := v.toUInt8.toNat_lt
      change ¬ 255 < v.toUInt8.toNat
      omega
    rw [readImmediate, Decoder.bind_eq_ok]
    refine ⟨_, _, Decoder.nextWord_eq_ok.2 ⟨hs.1, rfl⟩, ?_⟩
    rw [if_neg hsmall, ← Size.and_mask_byte]
    rfl
  | word =>
    cases hw
    rw [readImmediate, Decoder.bind_eq_ok]
    refine ⟨_, _, Decoder.nextWord_eq_ok.2 ⟨hs.1, rfl⟩, ?_⟩
    rw [← Size.and_mask_word]
    rfl
  | long =>
    cases hw
    rw [readImmediate, Decoder.bind_eq_ok]
    refine ⟨_, _, nextLong_eq_ok.2 ⟨hs, rfl⟩, ?_⟩
    rw [reduced, Size.and_mask_long]
    rfl

theorem read_of_field {mode reg : UInt16} {ws : List UInt16} (hregs : ea.RegistersExist)
    (hf : ea.field? = some (mode, reg)) (hw : ea.words size = .ok ws)
    (hs : s.Holds c.consumed ws) :
    ∃ mark, read mode reg size s c = .ok (ea.reduced size) ⟨c.consumed + ws.length, mark⟩ := by
  cases ea with
  | dataReg r | addrReg r | indirect r | postInc r | preDec r =>
    cases hf
    cases hw
    exact ⟨c.pcMark, by simp [read, reduced]⟩
  | disp r d =>
    cases hf
    cases hw
    exact ⟨c.pcMark, by simp [read, reduced, hs.1, -bind_pure_comp]⟩
  | index r d ix =>
    cases hf
    obtain ⟨w, hword, rfl⟩ := briefWords_eq_ok hw
    have hbrief := readBrief_of_word (c := c) hregs.2 hword hs.1
    exact ⟨c.pcMark, by simp [read, reduced, hbrief, -bind_pure_comp]⟩
  | absShort v =>
    cases hf
    cases hw
    exact ⟨c.pcMark, by simp [read, reduced, hs.1, -bind_pure_comp]⟩
  | absLong v =>
    cases hf
    cases hw
    have hlong : Decoder.nextLong s c = .ok v ⟨c.consumed + 2, c.pcMark⟩ :=
      nextLong_eq_ok.2 ⟨hs, rfl⟩
    exact ⟨c.pcMark, by simp [read, reduced, hlong, longWords, -bind_pure_comp]⟩
  | pcDisp d =>
    cases hf
    cases hw
    -- only what counts from the program counter leaves a mark
    exact ⟨c.consumed, by simp [read, reduced, hs.1, -bind_pure_comp]⟩
  | pcIndex d ix =>
    cases hf
    obtain ⟨w, hword, rfl⟩ := briefWords_eq_ok hw
    have hbrief := readBrief_of_word (c := ⟨c.consumed, c.consumed⟩) hregs hword hs.1
    exact ⟨c.consumed, by simp [read, reduced, hbrief, -bind_pure_comp]⟩
  | immediate v =>
    cases hf
    exact ⟨c.pcMark, readImmediate_of_words hw hs⟩
  | regList _ | relative _ | regPair _ _ | special _ => cases hf

end Ea

end ColdFire
