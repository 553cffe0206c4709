import ColdFire.Proofs.Registry.Decoded
import ColdFire.Proofs.Registry.EncodeDecode

namespace ColdFire

namespace Size

/-- A number is what a field of this size holds, widened with zeros or with its sign. -/
def Widens (size : Size) (field v : UInt32) : Prop := v = field ∨ v = size.signExtend field

instance (size : Size) (field v : UInt32) : Decidable (size.Widens field v) :=
  inferInstanceAs (Decidable (_ ∨ _))

theorem widens_of_lt {size : Size} {v : UInt32} (h : v.toNat < 2 ^ size.bits) :
    size.Widens (v &&& size.mask) v := by
  left
  rw [← UInt32.toNat_inj, toNat_and_mask, Nat.mod_eq_of_lt h]

theorem widens_word {v : UInt32} (h : ¬ (v.toInt32 < -0x8000 ∨ 0xFFFF < v.toInt32)) :
    word.Widens (v &&& word.mask) v := by
  rw [not_or, Int32.lt_iff_toInt_lt, Int32.lt_iff_toInt_lt] at h
  change ¬ _ < (-0x8000 : Int) ∧ ¬ (0xFFFF : Int) < _ at h
  by_cases hsigned : v.toInt32.toInt ≤ 0x7FFF
  · right
    have hlow : (v &&& word.mask).toUInt16 = v.toUInt16 := by
      rw [and_mask_word, UInt16.toUInt16_toUInt32]
    rw [signExtend, hlow]
    exact (signExtend_word_of_range (by omega) hsigned).symm
  · have htoInt : v.toInt32.toInt =
        if 2 * v.toNat < 2 ^ 32 then (v.toNat : Int) else (v.toNat : Int) - (2 ^ 32 : Nat) :=
      BitVec.toInt_eq_toNat_cond v.toBitVec
    have hlt := v.toNat_lt
    refine widens_of_lt (show v.toNat < 2 ^ 16 from ?_)
    split at htoInt
    · omega
    · omega

end Size

namespace Format

variable {f : Format} {mnemonic name : String} {ops : Operands} {s : WordSource} {c c' : Cursor}

/-- Whether a format refuses data that do not fit their field. All data fit the field of a long. -/
def checksData (f : Format) (size : Option Size) : Bool :=
  f.immediateSize size == .long || f == .link || f == .bitInWord

/-- What a format gives back of an immediate: the part of it that its field holds, and that tells the
whole if the format checks. -/
def GivesBack (f : Format) (size : Option Size) (asked given : Option Ea) : Prop :=
  ∀ v, asked = some (.immediate v) → ∃ field, given = some (.immediate field) ∧
    field = v &&& (f.immediateSize size).mask ∧
    (f.checksData size = true → (f.immediateSize size).Widens field v)

theorem read_size_of_unsized (h : f.read mnemonic s c = .ok (name, ops) c') (hf : f.sizes = []) :
    ops.size = none := by
  cases f with
  | lea | pea | unlk | jump | bare | immWord | vector | cachePush | cacheTouch | loadStatus =>
    simp only [read, Decoder.opcode_bind, Decoder.bind_eq_ok] at h
    grind [Decoder.bind_eq_ok, Decoder.pure_eq_ok, Decoder.reserved_ne_ok]
  | _ => cases hf

theorem read_size_tpf (h : tpf.read mnemonic s c = .ok (name, ops) c') (hsrc : ops.src ≠ none) :
    ops.size ≠ none := by
  simp only [read, Decoder.opcode_bind] at h
  grind [Decoder.bind_eq_ok, Decoder.pure_eq_ok]

theorem read_size_link (h : link.read mnemonic s c = .ok (name, ops) c') :
    ops.size = some .word := by
  simp only [read, Decoder.opcode_bind, Decoder.bind_eq_ok] at h
  grind [Decoder.bind_eq_ok, Decoder.pure_eq_ok]

end Format

/-- A bit that is told by a number is never one of an immediate operand. -/
theorem Catalogue.bitInWord_dst :
    ∀ d ∈ all, d.format = .bitInWord → d.dstModes.contains .imm = false := by
  decide +kernel

namespace Definition

variable {d : Definition} {name : String} {ops ops' : Operands} {e : Encoding} {v : UInt32}

theorem widens_of_plan (hd : d ∈ Catalogue.all) (h : d.plan name ops = .ok e) {size : Option Size}
    (hlink : d.format = .link → size = some .word)
    (hv : ops.src = some (.immediate v) ∨ ops.dst = some (.immediate v))
    (hchecks : d.format.checksData size = true) :
    (d.format.immediateSize size).Widens (v &&& (d.format.immediateSize size).mask) v := by
  simp only [Format.checksData, Bool.or_eq_true, beq_iff_eq] at hchecks
  rcases hchecks with (hlong | hf) | hf
  · rw [hlong]
    exact .inl (Size.and_mask_long v).symm
  · simp only [plan, hf, except_bind_eq_ok, except_guard_eq_ok, Operands.requireAddrReg_eq_ok,
      Operands.requireImmediate_eq_ok] at h
    obtain ⟨_, -, _, ⟨r, hsrc, rfl⟩, _, ⟨w, hdst, rfl⟩, hrange, -⟩ := h
    have hw : w = v := by
      rw [hsrc, hdst] at hv
      rcases hv with ⟨⟨⟩⟩ | ⟨⟨⟩⟩
      rfl
    rw [hf, hlink hf]
    exact hw ▸ Size.widens_word hrange
  · simp only [plan, hf, except_bind_eq_ok, except_guard_eq_ok, Operands.require_eq_ok,
      Operands.requireImmediate_eq_ok] at h
    obtain ⟨_, ⟨w, hsrc, rfl⟩, hrange, ea, ⟨hdst, hin, -⟩, -⟩ := h
    have hw : w = v := by
      rw [hsrc, hdst] at hv
      rcases hv with ⟨⟨⟩⟩ | ⟨⟨⟩⟩
      · rfl
      · have hno := Catalogue.bitInWord_dst d hd hf
        rw [show d.dstModes.contains .imm = true from hin] at hno
        cases hno
    rw [UInt32.not_lt, UInt32.le_iff_toNat_le] at hrange
    rw [hf, ← hw]
    exact Size.widens_of_lt (Nat.lt_succ_of_le hrange)

theorem size_iff_of_read {s : WordSource} {c c' : Cursor} {name' : String} {size : Size}
    (h : d.plan name ops = .ok e)
    (hread : d.format.read d.mnemonic s c = .ok (name', ops') c')
    (hreturned : ops.Returned d.format ops') (hsize : ops.size = some size) :
    ops'.size = some size ↔ d.format.sizes ≠ [] := by
  constructor
  · intro hsame hunsized
    rw [Format.read_size_of_unsized hread hunsized] at hsame
    cases hsame
  · intro hsized
    have hne : ops'.size ≠ none := by
      by_cases hf : d.format = .tpf
      · refine Format.read_size_tpf (hf ▸ hread) ?_
        obtain ⟨-, ⟨hnone, -, -⟩ | ⟨v, hsrc, -⟩⟩ := of_plan_tpf h hf
        · rw [hsize] at hnone
          cases hnone
        · rw [hreturned.src, hsrc]
          exact nofun
      · refine Format.read_size hread ?_
        rw [Format.alwaysSized, Bool.and_eq_true, bne_iff_ne, Bool.not_eq_true']
        exact ⟨List.isEmpty_eq_false_iff.mpr hsized, hf⟩
    obtain ⟨given, hgiven⟩ := Option.ne_none_iff_exists'.mp hne
    rw [hgiven, hreturned.size size given hsize hgiven]

end Definition

namespace Registry

variable {tier : Tier} {name : String} {ops : Operands} {words : List UInt16}

theorem of_select {r : Registry} {x : Entry} (h : r.select name ops tier = .ok x) :
    x ∈ r.entries ∧ ∃ e, x.1.plan name ops = .ok e := by
  rw [select, except_bind_eq_ok] at h
  obtain ⟨⟨y, e⟩, hchoose, hx⟩ := h
  obtain rfl := except_pure_eq_ok.1 hx
  obtain ⟨hmem, -, -, hplan⟩ := of_choose hchoose
  exact ⟨hmem, e, hplan⟩

/-- The words of a request hold its immediates as far as their fields go, which is all the way where
the form checks them, and they hold its size where the form has sizes. -/
theorem decode_of_encode_operands (hregs : ops.RegistersExist)
    (h : full.encode name ops tier = .ok words) (address : UInt32) :
    ∃ s x decoded c, WordSource.ofList? words address = some s ∧
      full.select name ops tier = .ok x ∧
      full.decode tier s .start = .ok (some decoded) c ∧ decoded.extWords + 1 = words.length ∧
      x.1.format.GivesBack decoded.size ops.src decoded.src ∧
      x.1.format.GivesBack decoded.size ops.dst decoded.dst ∧
      ∀ size, ops.size = some size → (decoded.size = some size ↔ x.1.format.sizes ≠ []) := by
  obtain ⟨s, x, decoded, c, hs, hselect, hlookup, hdecode, hlen, hreturned, -⟩ :=
    decode_of_encode hregs h [] address
  rw [List.append_nil] at hs
  obtain ⟨hx, e, hplan⟩ := of_select hselect
  obtain ⟨y, hy, hread⟩ := of_decode_some hdecode
  obtain rfl : x = y := Option.some.inj (hlookup.symm.trans hy)
  have hread := (Definition.read_of_decode hread).1
  have hlink (hf : x.1.format = .link) : decoded.size = some .word :=
    Format.read_size_link (hf ▸ hread)
  refine ⟨s, x, decoded, c, hs, hselect, hdecode, hlen, ?_, ?_, ?_⟩
  · intro v hv
    refine ⟨_, by rw [hreturned.src, hv]; rfl, rfl, ?_⟩
    exact Definition.widens_of_plan (mem_full hx) hplan hlink (.inl hv)
  · intro v hv
    refine ⟨_, by rw [hreturned.dst, hv]; rfl, rfl, ?_⟩
    exact Definition.widens_of_plan (mem_full hx) hplan hlink (.inr hv)
  · intro size hsize
    exact Definition.size_iff_of_read hplan hread hreturned hsize

theorem decode_of_encode_link :
    let ops : Operands := ⟨some .word, some (.addrReg 6), some (.immediate 0xFFFFFFFC)⟩
    ops.RegistersExist ∧ full.encode "link" ops .a = .ok [0x4E56, 0xFFFC] ∧
      ∃ s x decoded c, WordSource.ofList? [0x4E56, 0xFFFC] 0x1000 = some s ∧
        full.select "link" ops .a = .ok x ∧
        full.decode .a s .start = .ok (some decoded) c ∧ decoded.extWords + 1 = 2 ∧
        x.1.format.GivesBack decoded.size ops.src decoded.src ∧
        x.1.format.GivesBack decoded.size ops.dst decoded.dst ∧
        ∀ size, ops.size = some size → (decoded.size = some size ↔ x.1.format.sizes ≠ []) := by
  intro ops
  have hregs : ops.RegistersExist := by
    constructor
    · rintro _ ⟨⟩
      exact (by decide : (6 : UInt8) < 8)
    · rintro _ ⟨⟩
      trivial
  have hwords : full.encode "link" ops .a = .ok [0x4E56, 0xFFFC] := rfl
  exact ⟨hregs, hwords, decode_of_encode_operands hregs hwords 0x1000⟩

set_option maxRecDepth 1000 in
/-- Of a word that is moved as a byte the high half is lost: what is decoded does not tell it. -/
theorem encode_byte_of_word :
    full.encode "move" ⟨some .byte, some (.immediate 0x1234), some (.dataReg 0)⟩ .a =
        .ok [0x103C, 0x0034] ∧
      full.decode .a (.ofWords 0x103C [0x0034] 0x1000) .start =
        .ok (some ⟨⟨some .byte, some (.immediate 0x34), some (.dataReg 0)⟩,
          "move", 0x103C, 0x1000, 1⟩) ⟨1, 0⟩ ∧
      ¬ Size.byte.Widens 0x34 0x1234 := by
  have hlookup : full.lookup 0x103C .a = some (Catalogue.all[56], 56) :=
    lookup_of_claims (by decide) (by decide)
  refine ⟨rfl, ?_, by decide⟩
  exact decode_of_read (s := .ofWords 0x103C [0x0034] 0x1000) hlookup rfl

end Registry

end ColdFire
