import ColdFire.Instruction.Decode
import ColdFire.Proofs.Instruction.Opword

namespace ColdFire

namespace Ext

/-- Pieces of an encoding stand behind an opcode word one after another, from `i` up to `j`. -/
def Stand (s : WordSource) : List Ext → Nat → Nat → Prop
  | [], i, j => i = j
  | p :: rest, i, j => ∃ ws, p.words = .ok ws ∧ s.Holds i ws ∧ Stand s rest (i + ws.length) j

variable {s : WordSource} {i j k : Nat} {rest : List Ext}

theorem stand_nil : Stand s [] i i := rfl

theorem stand_word {w : UInt16} (h : s.extension i = .ok w) (hrest : Stand s rest (i + 1) j) :
    Stand s (.word w :: rest) i j :=
  ⟨[w], rfl, ⟨h, trivial⟩, hrest⟩

theorem stand_long {v : UInt32} (h : s.Holds i (Ea.longWords v)) (hrest : Stand s rest (i + 2) j) :
    Stand s (.long v :: rest) i j :=
  ⟨_, rfl, h, hrest⟩

theorem stand_ea {ea : Ea} {size : Size} (h : ea.StandsIn size s i k) (hrest : Stand s rest k j) :
    Stand s (.ea ea size :: rest) i j := by
  obtain ⟨ws, hws, hs, rfl⟩ := h
  exact ⟨ws, hws, hs, hrest⟩

theorem of_stand_word {w : UInt16} (h : Stand s (.word w :: rest) i j) :
    s.extension i = .ok w ∧ Stand s rest (i + 1) j := by
  obtain ⟨ws, hws, hs, hrest⟩ := h
  cases hws
  exact ⟨hs.1, hrest⟩

theorem of_stand_long {v : UInt32} (h : Stand s (.long v :: rest) i j) :
    s.Holds i (Ea.longWords v) ∧ Stand s rest (i + 2) j := by
  obtain ⟨ws, hws, hs, hrest⟩ := h
  cases hws
  exact ⟨hs, hrest⟩

theorem of_stand_ea_cons {ea : Ea} {size : Size} (h : Stand s (.ea ea size :: rest) i j) :
    ∃ k, ea.StandsIn size s i k ∧ Stand s rest k j := by
  obtain ⟨ws, hws, hs, hrest⟩ := h
  exact ⟨_, ⟨ws, hws, hs, rfl⟩, hrest⟩

theorem of_stand_ea {ea : Ea} {size : Size} (h : Stand s [.ea ea size] i j) :
    ea.StandsIn size s i j := by
  obtain ⟨k, hk, rfl⟩ := of_stand_ea_cons h
  exact hk

theorem mapM_words_of_stand {pieces : List Ext} (h : Stand s pieces i j) :
    ∃ wss, pieces.mapM words = .ok wss ∧ s.Holds i wss.flatten ∧ i + wss.flatten.length = j := by
  induction pieces generalizing i with
  | nil =>
    cases h
    exact ⟨[], rfl, trivial, rfl⟩
  | cons p rest ih =>
    obtain ⟨ws, hws, hs, hrest⟩ := h
    obtain ⟨wss, hwss, hss, hlen⟩ := ih hrest
    refine ⟨ws :: wss, ?_, ?_, ?_⟩
    · rw [List.mapM_cons, except_bind_eq_ok]
      refine ⟨ws, hws, ?_⟩
      rw [except_bind_eq_ok]
      exact ⟨wss, hwss, rfl⟩
    · rw [List.flatten_cons]
      exact WordSource.holds_append.2 ⟨hs, hss⟩
    · rw [List.flatten_cons, List.length_append, ← hlen, Nat.add_assoc]

theorem stand_of_mapM_words {pieces : List Ext} {wss : List (List UInt16)}
    (h : pieces.mapM words = .ok wss) (hs : s.Holds i wss.flatten) :
    Stand s pieces i (i + wss.flatten.length) := by
  induction pieces generalizing i wss with
  | nil =>
    cases h
    rfl
  | cons p rest ih =>
    rw [List.mapM_cons, except_bind_eq_ok] at h
    obtain ⟨ws, hws, h⟩ := h
    rw [except_bind_eq_ok] at h
    obtain ⟨rest', hrest, h⟩ := h
    cases h
    rw [List.flatten_cons, WordSource.holds_append] at hs
    refine ⟨ws, hws, hs.1, ?_⟩
    rw [List.flatten_cons, List.length_append, ← Nat.add_assoc]
    exact ih hrest hs.2

end Ext

theorem Encoding.stand_of_words {e : Encoding} {words : List UInt16} (h : e.words = .ok words) :
    ∃ exts, words = e.opword :: exts ∧
      ∀ s : WordSource, s.Holds 0 exts → Ext.Stand s e.ext 0 exts.length := by
  rw [Encoding.words, except_bind_eq_ok] at h
  obtain ⟨wss, hwss, h⟩ := h
  cases h
  refine ⟨wss.flatten, rfl, ?_⟩
  intro s hs
  have hstand := Ext.stand_of_mapM_words hwss hs
  rwa [Nat.zero_add] at hstand

theorem Encoding.words_of_stand {e : Encoding} {s : WordSource} {n : Nat}
    (hop : e.opword = s.opcode) (h : Ext.Stand s e.ext 0 n) :
    ∃ ws, e.words = .ok (s.opcode :: ws) ∧ s.Holds 0 ws ∧ ws.length = n := by
  obtain ⟨wss, hwss, hs, hlen⟩ := Ext.mapM_words_of_stand h
  refine ⟨wss.flatten, ?_, hs, by omega⟩
  rw [Encoding.words, except_bind_eq_ok]
  exact ⟨wss, hwss, by rw [hop]; rfl⟩

namespace QuickData

theorem toField?_ofField (q : QuickData) {x : UInt16} (h : x.toNat < 8) :
    q.toField? (q.ofField x) = some x := by
  rcases eq_of_lt_eight h with rfl | rfl | rfl | rfl | rfl | rfl | rfl | rfl
  all_goals cases q <;> rfl

end QuickData

namespace Definition

variable {d : Definition} {s : WordSource} {c c' : Cursor} {size : Size} {ea : Ea}
  {m which : String}

theorem Regular.pickSize (hd : d.Regular) (size : Size) (h : size ∈ d.format.sizes) :
    d.pickSize (some size) = .ok size := by
  rw [pickSize_eq_ok, hd.sizes]
  exact .inl ⟨rfl, h⟩

section Opword

variable (hd : d.Regular) (hfits : d.fits s.opcode = true)

include hd hfits

theorem require_src (hslot : d.format.slot = .src)
    (hmode : Modes.ofField? (Field.eaMode.get s.opcode) (Field.eaReg.get s.opcode) =
      some ea.modes) :
    Operands.require m which (some ea) d.srcModes = .ok ea := by
  have hmodes := (fits_iff.1 hfits).2.2
  rw [hd.slot, hslot] at hmodes
  exact require_of_lowModeIn hmodes hmode

theorem require_dst (hslot : d.format.slot = .dst)
    (hmode : Modes.ofField? (Field.eaMode.get s.opcode) (Field.eaReg.get s.opcode) =
      some ea.modes) :
    Operands.require m which (some ea) d.dstModes = .ok ea := by
  have hmodes := (fits_iff.1 hfits).2.2
  rw [hd.slot, hslot] at hmodes
  exact require_of_lowModeIn hmodes hmode

theorem agree (mask : UInt16) (hmask : d.format.operandMask = mask) :
    AgreeOn (~~~mask) d.opcode s.opcode :=
  hmask ▸ agree_of_fits hd hfits

theorem opword_bare (hmask : d.format.operandMask = 0) : d.opcode = s.opcode :=
  (agree hd hfits 0 hmask).eq_of_all

theorem opword_lowReg (hmask : d.format.operandMask = 0x0007) :
    Field.lowReg.set d.opcode (Field.lowReg.get s.opcode).toUInt8.toUInt16 = s.opcode := by
  rw [Field.toUInt16_toUInt8_get (by decide) (by decide)]
  exact ((agree hd hfits 0x0007 hmask).set_get (f := .lowReg) (by decide)).eq_of_all

theorem opword_ea (hmask : d.format.operandMask = 0x003F)
    (hfield : ea.field? = some (Field.eaMode.get s.opcode, Field.eaReg.get s.opcode)) :
    d.opcode ||| ea.lowField = s.opcode := by
  have hroom : d.opcode &&& 0x003F = 0 := opcode_and hd (by rw [hmask]; decide)
  exact ((agree hd hfits 0x003F hmask).or_lowField hroom hfield).eq_of_all

theorem opword_highReg_ea (hmask : d.format.operandMask = 0x0E3F)
    (hfield : ea.field? = some (Field.eaMode.get s.opcode, Field.eaReg.get s.opcode)) :
    Field.highReg.set d.opcode (Field.highReg.get s.opcode).toUInt8.toUInt16 ||| ea.lowField =
      s.opcode := by
  have hroom : Field.highReg.set d.opcode (Field.highReg.get s.opcode) &&& 0x003F = 0 := by
    rw [Field.set_and_of_disjoint (by decide) (by decide)]
    exact opcode_and hd (by rw [hmask]; decide)
  rw [Field.toUInt16_toUInt8_get (by decide) (by decide)]
  exact (((agree hd hfits 0x0E3F hmask).set_get (f := .highReg) (by decide)).or_lowField hroom
    hfield).eq_of_all

theorem opword_sizedEa (hmask : d.format.operandMask = 0x00FF)
    (hsize : Size.ofBits? (Field.size.get s.opcode) = some size)
    (hfield : ea.field? = some (Field.eaMode.get s.opcode, Field.eaReg.get s.opcode)) :
    Field.size.set d.opcode size.toBits ||| ea.lowField = s.opcode := by
  have hroom : Field.size.set d.opcode (Field.size.get s.opcode) &&& 0x003F = 0 := by
    rw [Field.set_and_of_disjoint (by decide) (by decide)]
    exact opcode_and hd (by rw [hmask]; decide)
  rw [Size.toBits_of_ofBits? (Field.toNat_get_lt (f := .size) (by decide) s.opcode) hsize]
  exact (((agree hd hfits 0x00FF hmask).set_get (f := .size) (by decide)).or_lowField hroom
    hfield).eq_of_all

/-- No word of such a form asks for a byte of an address register. -/
theorem refuseByte_sizedEa {isDst : Bool} (m which : String) (hf : d.format = .sizedEa isDst)
    (hsize : Size.ofBits? (Field.size.get s.opcode) = some size)
    (hfield : ea.field? = some (Field.eaMode.get s.opcode, Field.eaReg.get s.opcode))
    (hmodes : (if isDst then d.dstModes else d.srcModes).contains ea.modes = true) :
    Operands.refuseByteOfAddr m which size ea = .ok () := by
  rw [Operands.refuseByteOfAddr_eq_ok]
  rintro ⟨rfl, han⟩
  cases isDst with
  | true =>
    have hfit := hd.modes
    rw [if_pos rfl, han] at hmodes
    rw [hf, Format.modesFit, hmodes] at hfit
    cases hfit
  | false =>
    have hex := (fits_iff.1 hfits).2.1 (0x00F8, 0x0008) (by rw [hd.exclusions, hf]; decide)
    obtain ⟨r, rfl⟩ := Ea.field_of_modes_an han
    have hmode : 1 = Field.eaMode.get s.opcode := (Prod.mk.inj (Option.some.inj hfield)).1
    have hbits := Size.toBits_of_ofBits? (Field.toNat_get_lt (f := .size) (by decide) s.opcode) hsize
    have hboth : AgreeOn 0x00F8 _ s.opcode :=
      ((AgreeOn.nothing 0 s.opcode).set_get (f := .eaMode) (by decide)).set_get (f := .size) (by decide)
    rw [← hmode, ← hbits] at hboth
    exact hex hboth.symm

end Opword

/-- Asked for `ops` under `name`, a definition plans the opcode word and the first `n` extension words
of a source. -/
def Recovers (d : Definition) (s : WordSource) (name : String) (ops : Operands) (n : Nat) : Prop :=
  ∃ e, d.plan name ops = .ok e ∧ e.opword = s.opcode ∧ Ext.Stand s e.ext 0 n

theorem recovers_of {name : String} {ops : Operands} {n : Nat} {opword : UInt16} {exts : List Ext}
    (hop : opword = s.opcode) (hstand : Ext.Stand s exts 0 n)
    (hplan : d.plan name ops = .ok ⟨opword, exts⟩) : d.Recovers s name ops n :=
  ⟨_, hplan, hop, hstand⟩

end Definition

end ColdFire
