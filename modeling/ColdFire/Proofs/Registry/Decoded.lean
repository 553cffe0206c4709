import ColdFire.Proofs.Instruction.Taken
import ColdFire.Proofs.Registry.Lookup

namespace ColdFire

namespace Definition

variable {d : Definition} {s : WordSource} {c c' : Cursor} {decoded : Decoded}

theorem read_of_decode (h : d.decode s c = .ok decoded c') :
    d.format.read d.mnemonic s c = .ok (decoded.mnemonic, decoded.toOperands) c' ∧
      decoded.address = s.address ∧ decoded.extWords = c'.consumed := by
  unfold decode at h
  split at h
  · rename_i hread
    cases h
    exact ⟨hread, rfl, rfl⟩
  · cases h

theorem decode_of_read {name : String} {ops : Operands}
    (h : d.format.read d.mnemonic s c = .ok (name, ops) c') :
    d.decode s c = .ok { ops with
      mnemonic := name, opcode := s.opcode, address := s.address, extWords := c'.consumed } c' := by
  unfold decode
  rw [h]

theorem mnemonic_of_decode (h : d.decode s c = .ok decoded c') (hown : d.format.ownNames = []) :
    decoded.mnemonic = d.mnemonic := by
  rcases Format.read_name (read_of_decode h).1 with hname | hname
  · exact hname
  · rw [hown] at hname
    cases hname

end Definition

namespace Registry

variable {s : WordSource} {tier : Tier} {x : Entry} {decoded : Decoded} {c : Cursor}

theorem decode_of_lookup {r : Registry} (h : r.lookup s.opcode tier = some x) :
    r.decode tier s c =
      match x.1.decode s c with
      | .ok decoded after => .ok (some decoded) after
      | .error (.reserved ..) after => .ok none after
      | .error t after => .error t after := by
  unfold decode
  exact h ▸ rfl

theorem of_decode_some {r : Registry} (h : r.decode tier s .start = .ok (some decoded) c) :
    ∃ x, r.lookup s.opcode tier = some x ∧ x.1.decode s .start = .ok decoded c := by
  cases hlookup : r.lookup s.opcode tier with
  | none =>
    rw [decode, hlookup] at h
    cases h
  | some x =>
    rw [decode_of_lookup hlookup] at h
    refine ⟨x, rfl, ?_⟩
    split at h
    · rename_i hdecode
      cases h
      exact hdecode
    · cases h
    · cases h

theorem of_lookup_full {w : UInt16} (h : full.lookup w tier = some x) :
    x.1 ∈ Catalogue.all ∧ x.1.fits w = true ∧ x.1.format.accepts w = true := by
  obtain ⟨hx, hclaims⟩ := of_lookup h
  exact ⟨mem_full hx, (Definition.claims_iff.1 hclaims).2⟩

variable (hlookup : full.lookup s.opcode tier = some x)
  (hdecode : x.1.decode s .start = .ok decoded c)

include hlookup hdecode

theorem takes_of_decode : x.1.operation.Takes decoded.toOperands := by
  obtain ⟨hd, hfits, haccepts⟩ := of_lookup_full hlookup
  exact Definition.takes_of_read hd hfits haccepts (Definition.read_of_decode hdecode).1

theorem dst_meets_of_decode : x.1.dstDemand.Meets decoded.dst := by
  obtain ⟨hd, hfits, haccepts⟩ := of_lookup_full hlookup
  exact Definition.dst_meets_of_read hd hfits haccepts (Definition.read_of_decode hdecode).1

/-- Where a special register is the destination, the definition demands it or leaves all open. -/
theorem demand_of_special {reg : SpecialReg} (hdst : decoded.dst = some (.special reg)) :
    x.1.dstDemand = .special reg ∨
      x.1.dstDemand = .anything ∧ x.1.operation ≠ .divideLong := by
  have hmeets := dst_meets_of_decode hlookup hdecode
  rw [hdst] at hmeets
  cases hdemand : x.1.dstDemand with
  | anything =>
    refine .inr ⟨rfl, fun hop => ?_⟩
    have hsuits := (takes_of_decode hlookup hdecode).suits
    rw [hop] at hsuits
    rcases hsuits with ⟨q, hq⟩ | ⟨r, q, hq⟩
    all_goals
      rw [hdst] at hq
      cases hq
  | special reg' =>
    rw [hdemand] at hmeets
    cases hmeets
    exact .inl rfl
  | modes allowed =>
    rw [hdemand] at hmeets
    obtain ⟨_, ⟨⟩, -, hne⟩ := hmeets
    exact absurd rfl hne
  | absent =>
    rw [hdemand] at hmeets
    cases hmeets
  | list =>
    rw [hdemand] at hmeets
    obtain ⟨_, ⟨⟩⟩ := hmeets

end Registry

end ColdFire
