import ColdFire.Proofs.Instruction.Decoded
import ColdFire.Proofs.Instruction.Planned
import ColdFire.Proofs.Instruction.Reencode
import ColdFire.Proofs.Registry.Choose
import ColdFire.Proofs.Registry.Lookup

namespace ColdFire

namespace Registry

variable {tier : Tier} {s : WordSource} {c : Cursor} {decoded : Decoded}

theorem of_decode {definitions : List Definition}
    (h : (ofList definitions).decode tier s .start = .ok (some decoded) c) :
    ∃ x ∈ (ofList definitions).entries, x.1.claims s.opcode tier = true ∧
      x.1.format.read x.1.mnemonic s .start = .ok (decoded.mnemonic, decoded.toOperands) c ∧
      decoded.extWords = c.consumed := by
  unfold decode at h
  split at h
  · cases h
  · rename_i d i hlookup
    obtain ⟨hmem, hclaims⟩ := of_lookup hlookup
    refine ⟨(d, i), hmem, hclaims, ?_⟩
    unfold Definition.decode at h
    cases hread : d.format.read d.mnemonic s .start with
    | ok result after =>
      rw [hread] at h
      cases h
      exact ⟨rfl, rfl⟩
    | error t after =>
      rw [hread] at h
      cases t <;> cases h

theorem decode_of_read {r : Registry} {x : Entry} {name : String} {ops : Operands}
    (hlookup : r.lookup s.opcode tier = some x)
    (hread : x.1.format.read x.1.mnemonic s .start = .ok (name, ops) c) :
    r.decode tier s .start =
      .ok (some { ops with
        mnemonic := name, opcode := s.opcode, address := s.address, extWords := c.consumed }) c := by
  unfold decode Definition.decode
  rw [hlookup]
  simp only [hread]

theorem mem_names_of_read {x : Entry} {name : String} {ops : Operands} (hx : x ∈ full.entries)
    (hread : x.1.format.read x.1.mnemonic s .start = .ok (name, ops) c) : name ∈ x.1.names := by
  rcases Format.read_name hread with rfl | hown
  · exact List.mem_cons_self
  · exact Catalogue.ownNames_mem x.1 (mem_full hx) name hown

theorem answersTo_of_read {x : Entry} {name : String} {ops : Operands} (hx : x ∈ full.entries)
    (hread : x.1.format.read x.1.mnemonic s .start = .ok (name, ops) c) :
    x.1.answersTo name = true :=
  Definition.answersTo_of_mem (mem_names_of_read hx hread)

/-- The encoder plans the words of a decoded instruction. -/
theorem choose_of_decode (h : full.decode tier s .start = .ok (some decoded) c)
    (hzero : decoded.src ≠ some (.relative 0)) :
    ∃ x e ws, full.choose decoded.mnemonic decoded.toOperands tier = .ok (x, e) ∧
      e.words = .ok (s.opcode :: ws) ∧ s.Holds 0 ws ∧ ws.length = decoded.extWords := by
  obtain ⟨x, hx, hclaims, hread, hwords⟩ := of_decode h
  unfold Definition.claims at hclaims
  rw [Bool.and_eq_true, Bool.and_eq_true, decide_eq_true_eq] at hclaims
  obtain ⟨⟨htier, hfits⟩, haccepts⟩ := hclaims
  have hd := Catalogue.regular x.1 (mem_full hx)
  obtain ⟨e, hplan, hop, hstand⟩ := Definition.recovers hd hfits haccepts hzero hread
  obtain ⟨ws, hws, hholds, hlen⟩ := Encoding.words_of_stand hop hstand
  have hchoose := choose_of_plan hx (answersTo_of_read hx hread) htier (Format.read_size hread)
    hplan
  exact ⟨x, e, ws, hchoose, hws, hholds, hlen.trans hwords.symm⟩

/-- Whatever is decoded from a list of words is encoded with as many words from the front of the list,
and the size that is calculated for it is its length. A displacement of zero is left out: it has no
encoding. -/
theorem encode_of_decode {words : List UInt16} {address : UInt32}
    (hs : WordSource.ofList? words address = some s)
    (h : full.decode tier s .start = .ok (some decoded) c)
    (hzero : decoded.src ≠ some (.relative 0)) :
    full.encode decoded.mnemonic decoded.toOperands tier =
        .ok (words.take (1 + decoded.extWords)) ∧
      1 + decoded.extWords ≤ words.length ∧
      full.calcSize decoded.mnemonic decoded.toOperands tier = .ok decoded.length := by
  obtain ⟨x, e, ws, hchoose, hws, hholds, hlen⟩ := choose_of_decode h hzero
  obtain ⟨opcode, exts, rfl, rfl⟩ : ∃ opcode exts, words = opcode :: exts ∧
      s = WordSource.ofWords opcode exts address := by
    cases words with
    | nil => cases hs
    | cons opcode exts => exact ⟨opcode, exts, rfl, (Option.some.inj hs).symm⟩
  have hprefix : ws <+: exts := WordSource.holds_ofWords.1 hholds
  have htake : exts.take decoded.extWords = ws := by
    rw [← hlen]
    exact (List.prefix_iff_eq_take.mp hprefix).symm
  have hle := hprefix.length_le
  refine ⟨?_, ?_, ?_⟩
  · rw [encode, hchoose, Nat.add_comm, List.take_succ_cons, htake]
    exact hws
  · rw [List.length_cons]
    omega
  · have hlength := Encoding.length_words hws
    rw [List.length_cons, hlen] at hlength
    rw [calcSize, hchoose, Decoded.length]
    refine congrArg Except.ok (hlength.trans ?_)
    omega

set_option maxRecDepth 1000 in
/-- The remainder of a signed division by a long in memory, with a word of the next instruction. -/
theorem encode_of_decode_remainder :
    ∃ s decoded c, WordSource.ofList? [0x4C51, 0x2801, 0x4E71] 0x1000 = some s ∧
      full.decode .a s .start = .ok (some decoded) c ∧ decoded.src ≠ some (.relative 0) ∧
      full.encode decoded.mnemonic decoded.toOperands .a = .ok [0x4C51, 0x2801] ∧
      full.calcSize decoded.mnemonic decoded.toOperands .a = .ok 4 := by
  have hlookup : full.lookup 0x4C51 .a = some (Catalogue.all[53], 53) :=
    lookup_of_claims (by decide) (by decide)
  have hdecode : full.decode .a (.ofWords 0x4C51 [0x2801, 0x4E71] 0x1000) .start =
      .ok (some ⟨⟨some .long, some (.indirect 1), some (.regPair 1 2)⟩, "rems", 0x4C51, 0x1000, 1⟩)
        ⟨1, 0⟩ := by
    exact decode_of_read (s := .ofWords 0x4C51 [0x2801, 0x4E71] 0x1000) hlookup rfl
  have hs : WordSource.ofList? [0x4C51, 0x2801, 0x4E71] 0x1000 = some _ := rfl
  have h := encode_of_decode hs hdecode nofun
  exact ⟨_, _, _, rfl, hdecode, nofun, h.1, h.2.2⟩

end Registry

end ColdFire
