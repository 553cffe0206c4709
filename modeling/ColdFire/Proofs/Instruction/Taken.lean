import ColdFire.Proofs.Execution.Access
import ColdFire.Proofs.Instruction.Decoded
import ColdFire.Proofs.Instruction.Reencode

namespace ColdFire

namespace Demand

variable {o : Option Ea}

theorem meets_dn (h : (modes .dn).Meets o) : ∃ r, o = some (.dataReg r) := by
  obtain ⟨ea, rfl, hin, hne⟩ := h
  cases ea with
  | dataReg r => exact ⟨r, rfl⟩
  | regList _ | relative _ | regPair _ _ | special _ => exact absurd rfl hne
  | _ =>
    rw [Ea.modes] at hin
    exact absurd hin (by decide)

theorem meets_an (h : (modes .an).Meets o) : ∃ r, o = some (.addrReg r) := by
  obtain ⟨ea, rfl, hin, hne⟩ := h
  cases ea with
  | addrReg r => exact ⟨r, rfl⟩
  | regList _ | relative _ | regPair _ _ | special _ => exact absurd rfl hne
  | _ =>
    rw [Ea.modes] at hin
    exact absurd hin (by decide)

theorem meets_imm (h : (modes .imm).Meets o) : ∃ v, o = some (.immediate v) := by
  obtain ⟨ea, rfl, hin, hne⟩ := h
  cases ea with
  | immediate v => exact ⟨v, rfl⟩
  | regList _ | relative _ | regPair _ _ | special _ => exact absurd rfl hne
  | _ =>
    rw [Ea.modes] at hin
    exact absurd hin (by decide)

theorem meets_dn_imm (h : (modes (.dn ∪ .imm)).Meets o) : ∃ ea, o = some ea ∧ ea.IsCount := by
  obtain ⟨ea, rfl, hin, hne⟩ := h
  cases ea with
  | dataReg _ | immediate _ => exact ⟨_, rfl, trivial⟩
  | regList _ | relative _ | regPair _ _ | special _ => exact absurd rfl hne
  | _ =>
    rw [Ea.modes] at hin
    exact absurd hin (by decide)

def admits (d e : Demand) : Bool :=
  match d, e with
  | anything, _ => true
  | modes s, modes t => s.contains t
  | d, e => d == e

theorem meets_of_admits {d e : Demand} (h : d.admits e = true) (he : e.Meets o) : d.Meets o := by
  unfold admits at h
  split at h
  · trivial
  · rename_i s t
    obtain ⟨ea, rfl, hin, hne⟩ := he
    have hs : s.bits &&& t.bits = t.bits := eq_of_beq h
    have ht : t.bits &&& ea.modes.bits = ea.modes.bits := eq_of_beq hin
    refine ⟨ea, rfl, ?_, hne⟩
    rw [Modes.contains, beq_iff_eq, ← ht, ← UInt16.and_assoc, hs]
  · exact eq_of_beq h ▸ he

end Demand

namespace Operation

def srcDemand : Operation → Demand
  | arith _ | addressArith _ | test | logic _ | multiplyWord _ | divideWord _ | multiplyLong
  | divideLong | move | moveExtend _ => .modes .all
  | extendedArith _ => .modes .dn
  | bit _ => .modes (.dn ∪ .imm)
  | loadList | loadAddress | pushAddress | jump | call => .modes .control
  | storeList => .list
  | link => .modes .an
  | stop => .modes .imm
  | negate _ | clear | extend _ | complement | swapHalves | unlink | setCondition => .absent
  | shift _ | transfer | branch _ | nothing | returnFromCall | illegal | halt
  | returnFromException | trap | unsimulated => .anything

def dstDemand : Operation → Demand
  | arith _ | logic _ | move => .modes .alterable
  | clear => .modes .dataAlterable
  | bit .test => .modes .all
  | bit _ => .modes .alterable
  | extendedArith _ | negate _ | extend _ | complement | shift _ | multiplyWord _ | divideWord _
  | multiplyLong | moveExtend _ | swapHalves | setCondition => .modes .dn
  | addressArith _ | loadAddress | unlink => .modes .an
  | storeList => .modes (.ind ∪ .disp)
  | loadList => .list
  | link => .modes .imm
  | divideLong | test | transfer | pushAddress | branch _ | nothing | jump | call | returnFromCall
  | illegal | halt | returnFromException | stop | trap | unsimulated => .anything

/-- The operation works on longs, whatever the size of the instruction. -/
def isLong : Operation → Bool
  | logic _ | storeList => true
  | _ => false

/-- What some operations ask beyond that. -/
def Suits (op : Operation) (ops : Operands) : Prop :=
  match op with
  | shift _ => ∃ src, ops.src = some src ∧ src.IsCount
  | bit _ => ∀ ea, ops.dst = some ea → ops.size = some ea.bitSize
  | divideLong => (∃ q, ops.dst = some (.dataReg q)) ∨ ∃ r q, ops.dst = some (.regPair r q)
  | transfer =>
    ∃ src dst, ops.src = some src ∧ ops.dst = some dst ∧ src.IsReadable ∧ dst.NamesRegister
  | branch _ => ∃ off, ops.src = some (.relative off) ∧ ops.dst = none
  | _ => True

structure Takes (op : Operation) (ops : Operands) : Prop where
  src : op.srcDemand.Meets ops.src
  dst : op.dstDemand.Meets ops.dst
  size : op.isLong = true → ops.size.getD .long = .long
  suits : op.Suits ops

def uses (op : Operation) (f : Format) : Bool :=
  match op, f with
  | shift _, .shift | bit _, .bitInReg | bit _, .bitInWord | divideLong, .divLong
  | branch _, .branch | branch _, .longBranch | transfer, .eaToAddr _ | transfer, .toSpecial .sr
  | transfer, .toSpecial .ccr | transfer, .fromSpecial .sr | transfer, .fromSpecial .ccr
  | transfer, .toUsp | transfer, .fromUsp | transfer, .control => true
  | shift _, _ | bit _, _ | divideLong, _ | branch _, _ | transfer, _ => false
  | _, .branch | _, .longBranch => false
  | _, _ => true

end Operation

namespace Catalogue

theorem operands_taken : ∀ d ∈ all, d.operation.srcDemand.admits d.srcDemand = true ∧
    d.operation.dstDemand.admits d.dstDemand = true ∧
    (d.operation.isLong = true → d.format.sizes = [.long]) ∧
    d.operation.uses d.format = true := by
  decide +kernel

end Catalogue

namespace Ea

variable {ea : Ea} {size : Size} {s : WordSource} {c c' : Cursor}

theorem ne_relative_of_readLow (h : readLow size s c = .ok ea c') (off : Int32) :
    ea ≠ relative off := by
  rintro rfl
  cases (of_readLow h).1

theorem ne_relative_of_readImmediate (h : readImmediate size s c = .ok ea c') (off : Int32) :
    ea ≠ relative off := by
  rintro rfl
  obtain ⟨v, hv, -⟩ := readImmediate_eq_ok h
  cases hv

theorem isReadable_of_readLow (h : readLow size s c = .ok ea c') : ea.IsReadable :=
  .of_modes (Definition.ofField?_ne_none (of_readLow h).2.1)

end Ea

namespace Format

variable {f : Format} {mnemonic name : String} {ops : Operands} {s : WordSource} {c c' : Cursor}

theorem src_ne_relative (h : f.read mnemonic s c = .ok (name, ops) c') (hshort : f ≠ .branch)
    (hlong : f ≠ .longBranch) (off : Int32) : ops.src ≠ some (.relative off) := by
  cases f with
  | branch => exact absurd rfl hshort
  | longBranch => exact absurd rfl hlong
  | sizedEa isDst =>
    obtain ⟨-, size, ea, hea, rfl⟩ := read_sizedEa h
    cases isDst with
    | true => exact nofun
    | false =>
      rintro ⟨⟩
      exact Ea.ne_relative_of_readLow hea off rfl
  | _ =>
    simp only [read, Decoder.opcode_bind, Decoder.bind_eq_ok] at h
    grind [Decoder.bind_eq_ok, Decoder.pure_eq_ok, Decoder.reserved_ne_ok,
      Decoder.undecodable_ne_ok, Ea.ne_relative_of_readLow, Ea.ne_relative_of_readImmediate]

theorem read_shift (h : shift.read mnemonic s c = .ok (name, ops) c') :
    ∃ src, ops.src = some src ∧ src.IsCount := by
  simp only [read, Decoder.opcode_bind, Decoder.pure_eq_ok] at h
  obtain ⟨hops, _⟩ := h
  cases hops
  refine ⟨_, rfl, ?_⟩
  split <;> trivial

theorem read_bit (h : f.read mnemonic s c = .ok (name, ops) c')
    (hf : f = .bitInReg ∨ f = .bitInWord) (ea : Ea) (hdst : ops.dst = some ea) :
    ops.size = some ea.bitSize := by
  rcases hf with rfl | rfl
  · simp only [read, Decoder.opcode_bind, Decoder.bind_eq_ok, Decoder.pure_eq_ok] at h
    obtain ⟨ea, _, _, hops, _⟩ := h
    cases hops
    cases hdst
    rfl
  · simp only [read, Decoder.opcode_bind, Decoder.bind_eq_ok] at h
    obtain ⟨number, _, _, h⟩ := h
    split at h
    · exact absurd h Decoder.reserved_ne_ok
    · simp only [Decoder.bind_eq_ok, Decoder.pure_eq_ok] at h
      obtain ⟨ea, _, _, hops, _⟩ := h
      cases hops
      cases hdst
      rfl

theorem read_divLong (h : divLong.read mnemonic s c = .ok (name, ops) c') :
    (∃ q, ops.dst = some (.dataReg q)) ∨ ∃ r q, ops.dst = some (.regPair r q) := by
  simp only [read, Decoder.opcode_bind, Decoder.bind_eq_ok] at h
  obtain ⟨ext, _, _, h⟩ := h
  split at h
  · exact absurd h Decoder.reserved_ne_ok
  split at h
  · exact absurd h Decoder.reserved_ne_ok
  simp only [Decoder.bind_eq_ok] at h
  obtain ⟨ea, _, _, h⟩ := h
  split at h
  · cases (Decoder.pure_eq_ok.1 h).1
    exact .inl ⟨_, rfl⟩
  · cases (Decoder.pure_eq_ok.1 h).1
    exact .inr ⟨_, _, rfl⟩

theorem read_branch (h : f.read mnemonic s c = .ok (name, ops) c')
    (hf : f = .branch ∨ f = .longBranch) :
    ∃ off, ops.src = some (.relative off) ∧ ops.dst = none := by
  rcases hf with rfl | rfl
  · simp only [read, Decoder.opcode_bind] at h
    split at h
    · simp only [Decoder.bind_eq_ok, Decoder.pure_eq_ok] at h
      obtain ⟨offset, _, _, hops, _⟩ := h
      cases hops
      exact ⟨_, rfl, rfl⟩
    · cases (Decoder.pure_eq_ok.1 h).1
      exact ⟨_, rfl, rfl⟩
  · simp only [read, Decoder.opcode_bind, Decoder.bind_eq_ok, Decoder.pure_eq_ok] at h
    obtain ⟨offset, _, _, hops, _⟩ := h
    cases hops
    exact ⟨_, rfl, rfl⟩

theorem read_transfer (h : f.read mnemonic s c = .ok (name, ops) c')
    (huses : Operation.transfer.uses f = true) :
    ∃ src dst, ops.src = some src ∧ ops.dst = some dst ∧ src.IsReadable ∧ dst.NamesRegister := by
  cases f with
  | eaToAddr size =>
    simp only [read, Decoder.opcode_bind, Decoder.bind_eq_ok, Decoder.pure_eq_ok] at h
    obtain ⟨ea, _, hea, hops, _⟩ := h
    cases hops
    exact ⟨_, _, rfl, rfl, Ea.isReadable_of_readLow hea, trivial⟩
  | toSpecial reg =>
    simp only [read, Decoder.opcode_bind, Decoder.bind_eq_ok, Decoder.pure_eq_ok] at h
    obtain ⟨ea, _, hea, hops, _⟩ := h
    cases hops
    refine ⟨_, _, rfl, rfl, Ea.isReadable_of_readLow hea, ?_⟩
    cases reg with
    | cache _ => cases huses
    | _ => trivial
  | fromSpecial reg =>
    simp only [read, Decoder.opcode_bind, Decoder.pure_eq_ok] at h
    obtain ⟨hops, _⟩ := h
    cases hops
    refine ⟨_, _, rfl, rfl, ?_, trivial⟩
    cases reg with
    | control _ | cache _ => cases huses
    | _ => trivial
  | toUsp | fromUsp =>
    simp only [read, Decoder.opcode_bind, Decoder.pure_eq_ok] at h
    obtain ⟨hops, _⟩ := h
    cases hops
    exact ⟨_, _, rfl, rfl, trivial, trivial⟩
  | control =>
    simp only [read, Decoder.opcode_bind, Decoder.bind_eq_ok, Decoder.pure_eq_ok] at h
    obtain ⟨ext, _, _, hops, _⟩ := h
    cases hops
    refine ⟨_, _, rfl, rfl, ?_, trivial⟩
    split <;> trivial
  | _ => cases huses

theorem suits_of_read {op : Operation} (huses : op.uses f = true)
    (h : f.read mnemonic s c = .ok (name, ops) c') : op.Suits ops := by
  cases op with
  | shift _ =>
    cases f with
    | shift => exact read_shift h
    | _ => cases huses
  | bit _ =>
    cases f with
    | bitInReg => exact read_bit h (.inl rfl)
    | bitInWord => exact read_bit h (.inr rfl)
    | _ => cases huses
  | divideLong =>
    cases f with
    | divLong => exact read_divLong h
    | _ => cases huses
  | branch _ =>
    cases f with
    | branch => exact read_branch h (.inl rfl)
    | longBranch => exact read_branch h (.inr rfl)
    | _ => cases huses
  | transfer => exact read_transfer h huses
  | _ => trivial

end Format

namespace Definition

variable {d : Definition} {s : WordSource} {c : Cursor} {name : String} {ops : Operands}

theorem meets_of_read (hd : d ∈ Catalogue.all) (hfits : d.fits s.opcode = true)
    (haccepts : d.format.accepts s.opcode = true)
    (h : d.format.read d.mnemonic s .start = .ok (name, ops) c) (hshort : d.format ≠ .branch)
    (hlong : d.format ≠ .longBranch) :
    d.srcDemand.Meets ops.src ∧ d.dstDemand.Meets ops.dst ∧
      (d.format.sizes ≠ [] → ∀ size, ops.size = some size → size ∈ d.format.sizes) := by
  have hregular := Catalogue.regular d hd
  have hzero := Format.src_ne_relative h hshort hlong 0
  obtain ⟨e, hplan, -⟩ := recovers hregular hfits haccepts hzero h
  exact ⟨src_meets hplan, dst_meets hplan,
    fun hsized _ hsize => size_mem hregular hplan hsized hsize⟩

theorem operation_of_branch {op : Operation} {f : Format} (huses : op.uses f = true)
    (hf : f = .branch ∨ f = .longBranch) : ∃ cond, op = .branch cond := by
  cases op with
  | branch cond => exact ⟨cond, rfl⟩
  | _ => rcases hf with rfl | rfl <;> cases huses

theorem dst_meets_of_read (hd : d ∈ Catalogue.all) (hfits : d.fits s.opcode = true)
    (haccepts : d.format.accepts s.opcode = true)
    (h : d.format.read d.mnemonic s .start = .ok (name, ops) c) : d.dstDemand.Meets ops.dst := by
  by_cases hbranch : d.format = .branch ∨ d.format = .longBranch
  · obtain ⟨off, -, hnone⟩ := Format.read_branch h hbranch
    unfold dstDemand
    rcases hbranch with hf | hf <;> rw [hf] <;> exact hnone
  · rw [not_or] at hbranch
    exact (meets_of_read hd hfits haccepts h hbranch.1 hbranch.2).2.1

/-- Every decoded instruction has operands that its operation takes. -/
theorem takes_of_read (hd : d ∈ Catalogue.all) (hfits : d.fits s.opcode = true)
    (haccepts : d.format.accepts s.opcode = true)
    (h : d.format.read d.mnemonic s .start = .ok (name, ops) c) : d.operation.Takes ops := by
  obtain ⟨hsrc, hdst, hsized, huses⟩ := Catalogue.operands_taken d hd
  have hsuits := Format.suits_of_read huses h
  by_cases hbranch : d.format = .branch ∨ d.format = .longBranch
  · obtain ⟨cond, hop⟩ := operation_of_branch huses hbranch
    rw [hop] at hsuits ⊢
    exact ⟨trivial, trivial, nofun, hsuits⟩
  · rw [not_or] at hbranch
    obtain ⟨hsrc', hdst', hsize⟩ := meets_of_read hd hfits haccepts h hbranch.1 hbranch.2
    refine ⟨Demand.meets_of_admits hsrc hsrc', Demand.meets_of_admits hdst hdst', fun hop => ?_,
      hsuits⟩
    rw [hsized hop] at hsize
    cases hs : ops.size with
    | none => rfl
    | some size => exact List.mem_singleton.1 (hsize (List.cons_ne_nil _ _) size hs)

end Definition

end ColdFire
