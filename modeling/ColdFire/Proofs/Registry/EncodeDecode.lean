import ColdFire.Proofs.Instruction.Redecode
import ColdFire.Proofs.Registry.DecodeEncode

namespace ColdFire

namespace Registry

variable {tier : Tier} {s : WordSource} {name : String} {ops : Operands} {x : Entry}

theorem mem_names_of_answersTo {d : Definition} (hd : d ∈ Catalogue.all)
    (h : d.answersTo name = true) : ∃ known ∈ d.names, known.toList = Text.lower name.toList := by
  obtain ⟨known, hmem, hlower⟩ := Definition.answersTo_iff.1 h
  rw [Catalogue.lower_name d hd known hmem] at hlower
  exact ⟨known, hmem, hlower⟩

/-- A definition that was chosen claims the words that it planned, and reads them back. -/
theorem rereads_of_choose {e : Encoding} {n : Nat} (hregs : ops.RegistersExist)
    (h : full.choose name ops tier = .ok (x, e)) (hop : e.opword = s.opcode)
    (hstand : Ext.Stand s e.ext 0 n) :
    full.lookup s.opcode tier = some x ∧ x.1.Rereads s name ops n := by
  obtain ⟨hx, hname, htier, hplan⟩ := of_choose h
  have hd := mem_full hx
  obtain ⟨known, hmem, hlower⟩ := mem_names_of_answersTo hd hname
  have hrereads := Definition.rereads (Catalogue.regular x.1 hd) hregs
    (fun hown => ⟨known, Catalogue.names_own x.1 hd hown known hmem, hlower⟩) hplan hop hstand
  have hclaims : x.1.claims s.opcode tier = true := by
    unfold Definition.claims
    rw [decide_eq_true htier, hrereads.fits, hrereads.accepts]
    rfl
  exact ⟨lookup_of_claims hx hclaims, hrereads⟩

/-- Whatever is encoded, with any words behind it, is looked up to the definition that was selected
for it, and decoded from just the words that it was encoded to, with the operands of the request and
under the name that it was requested by. -/
theorem decode_of_encode {words : List UInt16} (hregs : ops.RegistersExist)
    (h : full.encode name ops tier = .ok words) (more : List UInt16) (address : UInt32) :
    ∃ s x decoded c, WordSource.ofList? (words ++ more) address = some s ∧
      full.select name ops tier = .ok x ∧
      full.lookup s.opcode tier = some x ∧
      full.decode tier s .start = .ok (some decoded) c ∧
      decoded.extWords + 1 = words.length ∧
      ops.Returned x.1.format decoded.toOperands ∧
      (∃ known ∈ x.1.names, known.toList = Text.lower name.toList) ∧
      x.1.Calls name decoded.mnemonic := by
  rw [encode, except_bind_eq_ok] at h
  obtain ⟨⟨x, e⟩, hchoose, hwords⟩ := h
  obtain ⟨exts, rfl, hstand⟩ := Encoding.stand_of_words hwords
  have hholds : (WordSource.ofWords e.opword (exts ++ more) address).Holds 0 exts :=
    WordSource.holds_ofWords.2 (List.prefix_append exts more)
  obtain ⟨hlookup, hrereads⟩ := rereads_of_choose hregs hchoose rfl (hstand _ hholds)
  obtain ⟨name', ops', mark, hread, hreturned, hcalls⟩ := hrereads.read
  obtain ⟨hx, hname, -, -⟩ := of_choose hchoose
  have hselect : full.select name ops tier = .ok x := by
    rw [select, hchoose]
    rfl
  exact ⟨_, x, _, _, rfl, hselect, hlookup, decode_of_read hlookup hread, rfl, hreturned,
    mem_names_of_answersTo (mem_full hx) hname, hcalls⟩

/-- A byte of ones to memory, requested in capitals and as a negative number, with a word of the next
instruction. -/
theorem decode_of_encode_byte :
    let ops : Operands := ⟨some .byte, some (.immediate 0xFFFFFFFF), some (.indirect 1)⟩
    ops.RegistersExist ∧ full.encode "MOVE" ops .a = .ok [0x12BC, 0x00FF] ∧
      ∃ s x decoded c, WordSource.ofList? [0x12BC, 0x00FF, 0x4E71] 0x1000 = some s ∧
        full.select "MOVE" ops .a = .ok x ∧ full.lookup s.opcode .a = some x ∧
        full.decode .a s .start = .ok (some decoded) c ∧ decoded.extWords = 1 ∧
        ops.Returned x.1.format decoded.toOperands := by
  intro ops
  have hregs : ops.RegistersExist := by
    constructor
    · rintro _ ⟨⟩
      trivial
    · rintro _ ⟨⟩
      exact (by decide : (1 : UInt8) < 8)
  have hwords : full.encode "MOVE" ops .a = .ok [0x12BC, 0x00FF] := rfl
  obtain ⟨s, x, decoded, c, hs, hselect, hlookup, hdecode, hlen, hreturned, -⟩ :=
    decode_of_encode hregs hwords [0x4E71] 0x1000
  exact ⟨hregs, hwords, s, x, decoded, c, hs, hselect, hlookup, hdecode, Nat.succ.inj hlen,
    hreturned⟩

end Registry

end ColdFire
