import ColdFire.Proofs.Instruction.Taken

namespace ColdFire

namespace Ea

variable {ea : Ea} {s : WordSource} {c c' : Cursor} {size : Size}

def isPcRelative : Ea → Bool
  | pcDisp _ | pcIndex .. => true
  | _ => false

theorem mark_of_readBrief {d : Int8} {ix : IndexReg} (h : readBrief s c = .ok (d, ix) c') :
    c'.pcMark = c.pcMark := by
  obtain ⟨w, -, -, rfl⟩ := readBrief_eq_ok h
  rfl

theorem mark_of_readImmediate (h : readImmediate size s c = .ok ea c') : c'.pcMark = c.pcMark := by
  cases size with
  | byte =>
    simp only [readImmediate, Decoder.bind_eq_ok, Decoder.nextWord_eq_ok] at h
    obtain ⟨w, _, ⟨-, rfl⟩, h⟩ := h
    split at h
    · exact absurd h Decoder.reserved_ne_ok
    · obtain ⟨-, rfl⟩ := Decoder.pure_eq_ok.1 h
      rfl
  | word =>
    simp only [readImmediate, Decoder.bind_eq_ok, Decoder.nextWord_eq_ok, Decoder.pure_eq_ok] at h
    obtain ⟨w, _, ⟨-, rfl⟩, -, rfl⟩ := h
    rfl
  | long =>
    simp only [readImmediate, Decoder.bind_eq_ok, nextLong_eq_ok, Decoder.pure_eq_ok] at h
    obtain ⟨v, _, ⟨-, rfl⟩, -, rfl⟩ := h
    rfl

/-- Only an operand relative to the program counter sets the mark, in front of its own word. -/
theorem mark_of_read {mode reg : UInt16} (h : read mode reg size s c = .ok ea c') :
    c'.pcMark = c.pcMark ∨ c'.pcMark = c.consumed ∧ ea.isPcRelative = true := by
  unfold read at h
  generalize (mode &&& 7).toNat = m at h
  generalize (reg &&& 7).toNat = r at h
  rcases m with _ | _ | _ | _ | _ | _ | _ | m
  case zero | succ.zero | succ.succ.zero | succ.succ.succ.zero | succ.succ.succ.succ.zero =>
    exact .inl (congrArg Cursor.pcMark (Decoder.pure_eq_ok.1 h).2.symm)
  · simp only [Decoder.bind_eq_ok, Decoder.nextWord_eq_ok, Decoder.pure_eq_ok] at h
    obtain ⟨w, _, ⟨-, rfl⟩, -, rfl⟩ := h
    exact .inl rfl
  · simp only [Decoder.bind_eq_ok, Decoder.pure_eq_ok] at h
    obtain ⟨⟨d, ix⟩, _, hbrief, -, rfl⟩ := h
    exact .inl (mark_of_readBrief hbrief)
  · rcases r with _ | _ | _ | _ | _ | r
    all_goals
      simp only [Decoder.bind_eq_ok, Decoder.nextWord_eq_ok, Decoder.markPcRelative_eq_ok,
        Decoder.pure_eq_ok, nextLong_eq_ok, Decoder.undecodable_ne_ok] at h
    · obtain ⟨w, _, ⟨-, rfl⟩, -, rfl⟩ := h
      exact .inl rfl
    · obtain ⟨v, _, ⟨-, rfl⟩, -, rfl⟩ := h
      exact .inl rfl
    · obtain ⟨_, _, rfl, w, _, ⟨-, rfl⟩, rfl, rfl⟩ := h
      exact .inr ⟨rfl, rfl⟩
    · obtain ⟨_, _, rfl, ⟨d, ix⟩, _, hbrief, rfl, rfl⟩ := h
      exact .inr ⟨mark_of_readBrief hbrief, rfl⟩
    · exact .inl (mark_of_readImmediate h)

theorem mark_of_readLow (h : readLow size s c = .ok ea c') :
    c'.pcMark = c.pcMark ∨ c'.pcMark = c.consumed ∧ ea.isPcRelative = true := by
  simp only [readLow, Decoder.opcode_bind] at h
  exact mark_of_read h

theorem mark_of_readLow_start (h : readLow size s .start = .ok ea c) : c.pcMark = 0 := by
  rcases mark_of_readLow h with hmark | ⟨hmark, -⟩
  · exact hmark
  · exact hmark

end Ea

namespace Format

variable {f : Format} {mnemonic name : String} {ops : Operands} {s : WordSource} {c : Cursor}

/-- Whether words stand in front of those of the source. -/
def srcIsLate : Format → Bool
  | mulLong | divLong | eaToList => true
  | _ => false

def dstIsLate : Format → Bool
  | bitInWord | listToEa | move .. => true
  | _ => false

theorem mark_of_read (h : f.read mnemonic s .start = .ok (name, ops) c) :
    c.pcMark = 0 ∨ (f.srcIsLate = true ∧ ∃ ea, ops.src = some ea ∧ ea.isPcRelative = true) ∨
      f.dstIsLate = true ∧ ∃ ea, ops.dst = some ea ∧ ea.isPcRelative = true := by
  cases f with
  | sizedEa isDst =>
    obtain ⟨-, size, ea, hea, -⟩ := read_sizedEa h
    exact .inl (Ea.mark_of_readLow_start hea)
  | move size immToDisp =>
    simp only [read, Decoder.opcode_bind, Decoder.bind_eq_ok, Decoder.pure_eq_ok] at h
    obtain ⟨src, c₁, hsrc, dst, c₂, hdst, hops, rfl⟩ := h
    cases hops
    -- the source comes first, so only the destination can be marked behind other words
    rcases Ea.mark_of_read hdst with hmark | ⟨-, hrelative⟩
    · exact .inl (hmark.trans (Ea.mark_of_readLow_start hsrc))
    · exact .inr (.inr ⟨rfl, dst, rfl, hrelative⟩)
  | eaToData | dataToEa | eaToAddr | quick | bitInReg | moveExtend | lea | pea | jump | toSpecial =>
    simp only [read, Decoder.opcode_bind, Decoder.bind_eq_ok, Decoder.pure_eq_ok] at h
    obtain ⟨ea, _, hea, -, rfl⟩ := h
    exact .inl (Ea.mark_of_readLow_start hea)
  | immToData | link =>
    simp only [read, Decoder.opcode_bind, Decoder.bind_eq_ok, Decoder.pure_eq_ok] at h
    obtain ⟨value, _, hvalue, -, rfl⟩ := h
    exact .inl (Ea.mark_of_readImmediate hvalue)
  | eaToList | listToEa =>
    simp only [read, Decoder.opcode_bind, Decoder.bind_eq_ok, Decoder.nextWord_eq_ok,
      Decoder.pure_eq_ok] at h
    obtain ⟨mask, _, ⟨-, rfl⟩, ea, _, hea, hops, rfl⟩ := h
    cases hops
    rcases Ea.mark_of_readLow hea with hmark | ⟨-, hrelative⟩
    · exact .inl hmark
    · simp [srcIsLate, dstIsLate, hrelative]
  | bitInWord =>
    simp only [read, Decoder.opcode_bind, Decoder.bind_eq_ok, Decoder.nextWord_eq_ok] at h
    obtain ⟨bit, _, ⟨-, rfl⟩, h⟩ := h
    split at h
    · exact absurd h Decoder.reserved_ne_ok
    · simp only [Decoder.bind_eq_ok, Decoder.pure_eq_ok] at h
      obtain ⟨ea, _, hea, hops, rfl⟩ := h
      cases hops
      rcases Ea.mark_of_readLow hea with hmark | ⟨-, hrelative⟩
      · exact .inl hmark
      · exact .inr (.inr ⟨rfl, ea, rfl, hrelative⟩)
  | mulLong | divLong =>
    simp only [read, Decoder.opcode_bind, Decoder.bind_eq_ok, Decoder.nextWord_eq_ok] at h
    obtain ⟨ext, _, ⟨-, rfl⟩, h⟩ := h
    split at h
    · exact absurd h Decoder.reserved_ne_ok
    split at h
    · exact absurd h Decoder.reserved_ne_ok
    rw [Decoder.bind_eq_ok] at h
    obtain ⟨ea, c₁, hea, h⟩ := h
    have hsrc : ops.src = some ea ∧ c₁ = c := by
      split at h <;> cases (Decoder.pure_eq_ok.1 h).1 <;> exact ⟨rfl, (Decoder.pure_eq_ok.1 h).2⟩
    obtain ⟨hsrc, rfl⟩ := hsrc
    rcases Ea.mark_of_readLow hea with hmark | ⟨-, hrelative⟩
    · exact .inl hmark
    · exact .inr (.inl ⟨rfl, ea, hsrc, hrelative⟩)
  | _ =>
    left
    simp only [read, Decoder.opcode_bind, Decoder.bind_eq_ok] at h
    grind [Decoder.bind_eq_ok, Decoder.pure_eq_ok, Decoder.nextWord_eq_ok, Ea.nextLong_eq_ok,
      Decoder.reserved_ne_ok, Cursor.start]

end Format

namespace Demand

def pcRelative : Demand := modes (.pcDisp ∪ .pcIndex)

theorem meets_pcRelative {ea : Ea} (h : ea.isPcRelative = true) : pcRelative.Meets (some ea) := by
  refine ⟨ea, rfl, ?_⟩
  cases ea with
  | pcDisp d | pcIndex d ix =>
    rw [Ea.modes]
    decide
  | _ => cases h

end Demand

namespace Catalogue

theorem late_not_pcRelative : ∀ d ∈ all,
    (d.format.srcIsLate = true → d.srcDemand.excludes .pcRelative = true) ∧
      (d.format.dstIsLate = true → d.dstDemand.excludes .pcRelative = true) := by
  decide +kernel

end Catalogue

namespace Definition

variable {d : Definition} {s : WordSource} {c : Cursor} {name : String} {ops : Operands}

/-- Displacements from the program counter count from the word behind the opcode word. -/
theorem mark_of_read (hd : d ∈ Catalogue.all) (hfits : d.fits s.opcode = true)
    (haccepts : d.format.accepts s.opcode = true)
    (h : d.format.read d.mnemonic s .start = .ok (name, ops) c) : c.pcMark = 0 := by
  obtain ⟨hsrc, hdst⟩ := Catalogue.late_not_pcRelative d hd
  rcases Format.mark_of_read h with hmark | ⟨hlate, ea, hea, hrelative⟩ | ⟨hlate, ea, hea, hrelative⟩
  · exact hmark
  · have hshort : d.format ≠ .branch := fun hf => by rw [hf] at hlate; cases hlate
    have hlong : d.format ≠ .longBranch := fun hf => by rw [hf] at hlate; cases hlate
    obtain ⟨hmeets, -⟩ := meets_of_read hd hfits haccepts h hshort hlong
    exact (Demand.not_meets_of_excludes (hsrc hlate) (hea ▸ hmeets)
      (Demand.meets_pcRelative hrelative)).elim
  · have hmeets := dst_meets_of_read hd hfits haccepts h
    exact (Demand.not_meets_of_excludes (hdst hlate) (hea ▸ hmeets)
      (Demand.meets_pcRelative hrelative)).elim

end Definition

end ColdFire
