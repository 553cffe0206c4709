import ColdFire.Proofs.Instruction.Namesake
import ColdFire.Proofs.Instruction.Opword

namespace ColdFire

namespace Definition

/-- The mode that a mode field tells of without its register field. -/
def modeOf? (mode : UInt16) : Option Modes :=
  if mode = 7 then none else Modes.ofField? mode 0

/-- The modes of the low operand field of a word that a definition claims, if there are others. -/
def lowModes? (d : Definition) : Option Modes :=
  match d.slot with
  | .src | .move => some d.srcModes
  | .dst => some d.dstModes
  | .none =>
    if d.operandMask &&& Field.eaMode.mask = 0 then modeOf? (Field.eaMode.get d.opcode) else none

def moveModes? (d : Definition) : Option Modes :=
  match d.slot with
  | .move => some d.dstModes
  | _ =>
    if d.operandMask &&& Field.moveMode.mask = 0 then modeOf? (Field.moveMode.get d.opcode)
    else none

def modesApart : Option Modes → Option Modes → Bool
  | some s, some t => s.bits &&& t.bits == 0
  | _, _ => false

/-- Whether a definition leaves all words of another to it. -/
def leaves (d e : Definition) : Bool :=
  d.exclusions.any fun (mask, value) => mask &&& e.operandMask == 0 && e.opcode &&& mask == value

/-- Whether no word is claimed by both of two definitions: a fixed bit differs, one leaves it to the
other, the modes differ, or only one of them keeps the rule for pairs. -/
def apart (d e : Definition) : Bool :=
  (d.opcode ^^^ e.opcode) &&& ~~~d.operandMask &&& ~~~e.operandMask != 0 ||
    d.leaves e || e.leaves d || modesApart d.lowModes? e.lowModes? ||
    modesApart d.moveModes? e.moveModes? ||
    match d.format, e.format with
    | .move _ b, .move _ b' => b != b'
    | _, _ => false

variable {d e : Definition} {w : UInt16} {tier : Tier}

theorem and_mask_eq (h : d.fits w = true) {m : UInt16} (hm : m &&& d.operandMask = 0) :
    w &&& m = d.opcode &&& m := by
  have hagree := (fits_iff.1 h).1
  have hkeep : ~~~d.operandMask &&& m = m := by
    apply eq_of_bitAt_eq
    intro i hi
    have hb : (bitAt m i && bitAt d.operandMask i) = false := by
      rw [← bitAt_and, hm]
      simp [bitAt]
    rw [bitAt_and, bitAt_not, decide_eq_true hi]
    cases hbit : bitAt m i <;> simp_all
  rw [← hkeep, ← UInt16.and_assoc, ← UInt16.and_assoc, ← hagree]

theorem not_fits_of_leaves (h : d.leaves e = true) (hd : d.fits w = true) (he : e.fits w = true) :
    False := by
  obtain ⟨⟨mask, value⟩, hex, hfixed⟩ := List.any_eq_true.mp h
  rw [Bool.and_eq_true, beq_iff_eq, beq_iff_eq] at hfixed
  have hne := (fits_iff.1 hd).2.1 _ hex
  exact hne ((and_mask_eq he hfixed.1).trans hfixed.2)

theorem get_of_fixed (h : d.fits w = true) {f : Field} (hf : f.InWord)
    (hfixed : d.operandMask &&& f.mask = 0) : f.get w = f.get d.opcode := by
  apply Field.get_congr hf
  exact and_mask_eq h (by rw [UInt16.and_comm]; exact hfixed)

theorem ofField?_of_modeOf? {mode reg : UInt16} {m : Modes} (hmode : mode.toNat < 8)
    (h : modeOf? mode = some m) : Modes.ofField? mode reg = some m := by
  unfold modeOf? at h
  split at h
  · cases h
  · rename_i hne
    rcases eq_of_lt_eight hmode with rfl | rfl | rfl | rfl | rfl | rfl | rfl | rfl
    case inr.inr.inr.inr.inr.inr.inr => exact absurd rfl hne
    all_goals exact h

theorem any_contains {o : Option Modes} {modes : Modes} (h : o.any modes.contains = true) :
    ∃ m, o = some m ∧ modes.contains m = true := by
  cases o with
  | none => cases h
  | some m => exact ⟨m, rfl, h⟩

theorem lowModes_of_fits (h : d.fits w = true) {modes : Modes} (hmodes : d.lowModes? = some modes) :
    ∃ m, Modes.ofField? (Field.eaMode.get w) (Field.eaReg.get w) = some m ∧
      modes.contains m = true := by
  have hslot := (fits_iff.1 h).2.2
  unfold lowModes? at hmodes
  cases hs : d.slot with
  | src =>
    rw [hs] at hslot hmodes
    cases hmodes
    exact any_contains hslot
  | dst =>
    rw [hs] at hslot hmodes
    cases hmodes
    exact any_contains hslot
  | move =>
    rw [hs] at hslot hmodes
    cases hmodes
    exact any_contains hslot.1
  | none =>
    simp only [hs] at hmodes
    split at hmodes
    · rename_i hfixed
      rw [← get_of_fixed h (by decide) hfixed] at hmodes
      exact ⟨modes, ofField?_of_modeOf? (Field.toNat_get_lt (by decide) w) hmodes,
        Modes.contains_self modes⟩
    · cases hmodes

theorem moveModes_of_fits (h : d.fits w = true) {modes : Modes}
    (hmodes : d.moveModes? = some modes) :
    ∃ m, Modes.ofField? (Field.moveMode.get w) (Field.moveReg.get w) = some m ∧
      modes.contains m = true := by
  have hslot := (fits_iff.1 h).2.2
  unfold moveModes? at hmodes
  by_cases hs : d.slot = .move
  · rw [hs] at hslot hmodes
    cases hmodes
    exact any_contains hslot.2
  · have hfixed : (if d.operandMask &&& Field.moveMode.mask = 0
        then modeOf? (Field.moveMode.get d.opcode) else none) = some modes := by
      cases hd : d.slot <;> simp_all
    split at hfixed
    · rename_i hmask
      rw [← get_of_fixed h (by decide) hmask] at hfixed
      exact ⟨modes, ofField?_of_modeOf? (Field.toNat_get_lt (by decide) w) hfixed,
        Modes.contains_self modes⟩
    · cases hfixed

theorem of_modesApart {o o' : Option Modes} (h : modesApart o o' = true) :
    ∃ modes modes', o = some modes ∧ o' = some modes' ∧ modes.bits &&& modes'.bits = 0 := by
  cases o with
  | none => cases h
  | some modes =>
    cases o' with
    | none => cases h
    | some modes' => exact ⟨modes, modes', rfl, rfl, eq_of_beq h⟩

theorem claims_iff : d.claims w tier = true ↔
    d.tier ≤ tier ∧ d.fits w = true ∧ d.format.accepts w = true := by
  rw [claims, Bool.and_eq_true, Bool.and_eq_true, decide_eq_true_eq, and_assoc]

theorem accepts_immToDisp {size : Size} (h : (Format.move size true).accepts w = true) :
    Modes.ofField? (Field.eaMode.get w) (Field.eaReg.get w) = some .imm ∧
      Modes.ofField? (Field.moveMode.get w) (Field.moveReg.get w) = some .disp := by
  rw [Format.accepts] at h
  split at h
  · rename_i src dst hsrc hdst
    rw [if_pos rfl, decide_eq_true_eq] at h
    rw [hsrc, hdst, h.1, h.2]
    exact ⟨rfl, rfl⟩
  · cases h

theorem accepts_movePair {size : Size} (h : (Format.move size false).accepts w = true) :
    ∃ src dst, Modes.ofField? (Field.eaMode.get w) (Field.eaReg.get w) = some src ∧
      Modes.ofField? (Field.moveMode.get w) (Field.moveReg.get w) = some dst ∧
      Modes.movePair src dst = true := by
  rw [Format.accepts] at h
  split at h
  · rename_i src dst hsrc hdst
    rw [if_neg Bool.false_ne_true, Bool.and_eq_true] at h
    exact ⟨src, dst, hsrc, hdst, h.2⟩
  · cases h

theorem not_accepts_both {size size' : Size} (h : (Format.move size true).accepts w = true)
    (h' : (Format.move size' false).accepts w = true) : False := by
  obtain ⟨hsrc, hdst⟩ := accepts_immToDisp h
  obtain ⟨src, dst, hsrc', hdst', hpair⟩ := accepts_movePair h'
  rw [hsrc] at hsrc'
  rw [hdst] at hdst'
  cases hsrc'
  cases hdst'
  exact absurd hpair (by decide)

theorem fixed_agree (hd : d.fits w = true) (he : e.fits w = true) :
    (d.opcode ^^^ e.opcode) &&& ~~~d.operandMask &&& ~~~e.operandMask = 0 := by
  have hd := (fits_iff.1 hd).1
  have he := (fits_iff.1 he).1
  apply eq_of_bitAt_eq
  intro i hi
  have hb : (bitAt d.opcode i && bitAt (~~~d.operandMask) i) =
      (bitAt w i && bitAt (~~~d.operandMask) i) := by
    rw [← bitAt_and, ← bitAt_and]
    exact congrArg (bitAt · i) hd
  have hb' : (bitAt e.opcode i && bitAt (~~~e.operandMask) i) =
      (bitAt w i && bitAt (~~~e.operandMask) i) := by
    rw [← bitAt_and, ← bitAt_and]
    exact congrArg (bitAt · i) he
  rw [bitAt_and, bitAt_and, bitAt_xor]
  cases hkeep : bitAt (~~~d.operandMask) i
  · simp [bitAt]
  cases hkeep' : bitAt (~~~e.operandMask) i
  · simp [bitAt]
  rw [hkeep, Bool.and_true, Bool.and_true] at hb
  rw [hkeep', Bool.and_true, Bool.and_true] at hb'
  rw [hb, hb', Bool.xor_self]
  simp [bitAt]

theorem not_claims_of_apart (h : d.apart e = true) (hd : d.claims w tier = true)
    (he : e.claims w tier = true) : False := by
  obtain ⟨-, hd, haccepts⟩ := claims_iff.1 hd
  obtain ⟨-, he, haccepts'⟩ := claims_iff.1 he
  simp only [apart, Bool.or_eq_true] at h
  rcases h with ((((hfixed | hleaves) | hleaves) | hlow) | hmove) | hpairs
  · exact absurd (fixed_agree hd he) (bne_iff_ne.mp hfixed)
  · exact not_fits_of_leaves hleaves hd he
  · exact not_fits_of_leaves hleaves he hd
  · obtain ⟨modes, modes', hm, hm', hnone⟩ := of_modesApart hlow
    obtain ⟨m, hfield, hin⟩ := lowModes_of_fits hd hm
    obtain ⟨m', hfield', hin'⟩ := lowModes_of_fits he hm'
    rw [hfield] at hfield'
    cases hfield'
    exact ofField?_ne_none hfield (Modes.eq_none_of_contains hnone hin hin')
  · obtain ⟨modes, modes', hm, hm', hnone⟩ := of_modesApart hmove
    obtain ⟨m, hfield, hin⟩ := moveModes_of_fits hd hm
    obtain ⟨m', hfield', hin'⟩ := moveModes_of_fits he hm'
    rw [hfield] at hfield'
    cases hfield'
    exact ofField?_ne_none hfield (Modes.eq_none_of_contains hnone hin hin')
  · split at hpairs
    · rename_i b _ b' hf hf'
      rw [hf] at haccepts
      rw [hf'] at haccepts'
      cases b <;> cases b'
      · cases hpairs
      · exact not_accepts_both haccepts' haccepts
      · exact not_accepts_both haccepts haccepts'
      · cases hpairs
    · cases hpairs

end Definition

end ColdFire
