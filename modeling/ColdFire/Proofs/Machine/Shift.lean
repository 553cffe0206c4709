import ColdFire.Proofs.Cpu.FlagBits
import ColdFire.Proofs.Machine.Extended
import ColdFire.Proofs.Word.Shift

namespace ColdFire

namespace Cpu

theorem setDataReg_dataReg (cpu : Cpu) (r : UInt8) : cpu.setDataReg r (cpu.dataReg r) = cpu := by
  have h : cpu.d.set (regIndex r) cpu.d[regIndex r] = cpu.d := Vector.set_getElem_self _
  exact congrArg (fun d => { cpu with d := d }) h

def setShifted (cpu : Cpu) (r : UInt8) (result : UInt32 × Bool) : Cpu :=
  (((cpu.setDataReg r result.1).setLogicFlags result.1 .long).setFlag .carry result.2).setFlag
    .extend result.2

theorem flag_setShifted (cpu : Cpu) (r : UInt8) (result : UInt32 × Bool) (f : Flag) :
    (cpu.setShifted r result).flag f =
      match f with
      | .carry | .extend => result.2
      | f => ((cpu.setDataReg r result.1).setLogicFlags result.1 .long).flag f := by
  unfold setShifted
  rw [flag_setFlag, flag_setFlag]
  cases f <;> rfl

theorem agreesButCodes_setShifted (cpu : Cpu) (r : UInt8) (result : UInt32 × Bool) :
    (cpu.setDataReg r result.1).AgreesButCodes (cpu.setShifted r result) :=
  ((agreesButCodes_setLogicFlags _ _).trans (agreesButCodes_setFlag rfl _)).trans
    (agreesButCodes_setFlag rfl _)

end Cpu

namespace ShiftKind

def mnemonic : ShiftKind → String
  | asl => "asl"
  | asr => "asr"
  | lsl => "lsl"
  | lsr => "lsr"

/-- The processor after an instruction, but for its program counter. -/
def after (kind : ShiftKind) (cpu : Cpu) (r : UInt8) (count : UInt32) : Cpu :=
  if count = 0 then cpu.setLogicFlags (cpu.dataReg r) .long
  else cpu.setShifted r (kind.apply (cpu.dataReg r) count)

/-- What a number of shifts by one bit leaves in a register and in the flags. -/
structure Shifted (kind : ShiftKind) (n : Nat) (r : UInt8) (cpu cpu' : Cpu) : Prop where
  register : (cpu.setDataReg r (kind.times (cpu.dataReg r) n).1).AgreesButCodes cpu'
  carry : cpu'.flag .carry = (kind.times (cpu.dataReg r) n).2
  extend : cpu'.flag .extend = if n = 0 then cpu.flag .extend else cpu'.flag .carry
  overflow : cpu'.flag .overflow = false
  negative : cpu'.flag .negative = Size.long.sign (kind.times (cpu.dataReg r) n).1
  zero : cpu'.flag .zero = decide ((kind.times (cpu.dataReg r) n).1 = 0)

variable {kind : ShiftKind} {n : Nat} {r : UInt8} {cpu cpu' : Cpu}

theorem Shifted.withPc (h : kind.Shifted n r cpu cpu') (pc : UInt32) :
    kind.Shifted n r { cpu with pc := pc } { cpu' with pc := pc } :=
  ⟨h.register.withPc pc, h.carry, h.extend, h.overflow, h.negative, h.zero⟩

theorem shifted_after (kind : ShiftKind) (cpu : Cpu) (r : UInt8) {count : UInt32}
    (h : count.toNat < 64) : kind.Shifted count.toNat r cpu (kind.after cpu r count) := by
  have hzero (w : UInt32) : decide (Size.long.unsigned w = 0) = decide (w = 0) := by
    rw [decide_eq_decide, Size.unsigned_long, ← UInt32.toNat_inj]
    rfl
  -- a count of zero sets the flags as a test does and leaves the extend bit
  by_cases hcount : count = 0
  · subst hcount
    have hnone : kind.times (cpu.dataReg r) (0 : UInt32).toNat = (cpu.dataReg r, false) := rfl
    have hflag (f : Flag) := cpu.flag_setLogicFlags (cpu.dataReg r) .long f
    rw [after, if_pos rfl]
    exact {
      register := by
        rw [hnone, Cpu.setDataReg_dataReg]
        exact Cpu.agreesButCodes_setLogicFlags _ _
      carry := hflag .carry
      extend := hflag .extend
      overflow := hflag .overflow
      negative := hflag .negative
      zero := (hflag .zero).trans (hzero _) }
  · have hne : count.toNat ≠ 0 := fun hnone => hcount (UInt32.toNat_inj.1 hnone)
    rw [after, if_neg hcount, kind.apply_eq_times _ (Nat.one_le_iff_ne_zero.2 hne) h]
    have hflag (f : Flag) := cpu.flag_setShifted r (kind.times (cpu.dataReg r) count.toNat) f
    have hlogic (f : Flag) :=
      (cpu.setDataReg r (kind.times (cpu.dataReg r) count.toNat).1).flag_setLogicFlags
        (kind.times (cpu.dataReg r) count.toNat).1 .long f
    exact {
      register := cpu.agreesButCodes_setShifted r _
      carry := hflag .carry
      extend := by rw [hflag, hflag, if_neg hne]
      overflow := (hflag .overflow).trans (hlogic .overflow)
      negative := (hflag .negative).trans (hlogic .negative)
      zero := ((hflag .zero).trans (hlogic .zero)).trans (hzero _) }

end ShiftKind

namespace Catalogue

theorem shifts_named (kind : ShiftKind) :
    ∀ d ∈ all, kind.mnemonic ∈ d.mnemonic :: d.format.ownNames →
      d.privileged = false ∧ d.operation = .shift kind := by
  cases kind <;> decide +kernel

end Catalogue

variable {β : Type} [Bus β]

namespace Exec

variable {d : Decoded} {c : Context β} {r s : UInt8}

theorem shift_eq (kind : ShiftKind) (hsrc : d.src = some (.dataReg s))
    (hdst : d.dst = some (.dataReg r)) :
    shift kind d c =
      .ok () { c with cpu := kind.after c.cpu r (c.cpu.dataReg s % 64) } := by
  have hcount : shiftCount (.dataReg s) c = .ok (c.cpu.dataReg s % 64) c := rfl
  rw [shift, bind_source hsrc, bind_of_ok hcount, bind_destination hdst,
    bind_of_ok (resolve_dataReg r c), bind_of_ok (read_data r c), ShiftKind.after]
  dsimp only
  by_cases hzero : c.cpu.dataReg s % 64 = 0
  · rw [if_pos hzero, if_pos hzero]
    rfl
  · rw [if_neg hzero, if_neg hzero, bind_of_ok (write_data r _ c)]
    rfl

end Exec

theorem Machine.At.shift_completes {m : Machine β} {d : Decoded} {kind : ShiftKind} {s : UInt8}
    (h : m.At d) (hname : d.mnemonic = kind.mnemonic) (hsrc : d.src = some (.dataReg s)) :
    ∃ r pc, d.dst = some (.dataReg r) ∧ Run.step .full m =
      .ok .running ⟨{ kind.after m.cpu r (m.cpu.dataReg s % 64) with pc := pc }, m.bus⟩ := by
  obtain ⟨x, c, hx⟩ := h.performs
  obtain ⟨hpriv, hop⟩ := Catalogue.shifts_named kind x hx.listed (hname ▸ hx.named)
  have htakes := hx.takes
  rw [hop] at htakes
  obtain ⟨r, hdst⟩ := Demand.meets_dn htakes.dst
  have hperform := (congrArg (Exec.perform · d c) hop).trans (Exec.shift_eq kind hsrc hdst)
  rw [hx.cpu] at hperform
  have hlt : (m.cpu.dataReg s % 64).toNat < 64 := by
    rw [UInt32.toNat_mod]
    exact Nat.mod_lt _ (by decide)
  obtain ⟨sr, hcpu, -⟩ := (kind.shifted_after m.cpu r hlt).register
  have hstate : (kind.after m.cpu r (m.cpu.dataReg s % 64)).state = .running := by
    rw [hcpu]
    exact h.running
  have hstep := hx.step_eq hpriv hperform hstate
  rw [hx.bus] at hstep
  exact ⟨r, _, hdst, hstep⟩

namespace Run

/-- A shift by 1 to 63 bits is as many shifts by one bit, and the carry is the bit that the last of
them loses; so two shifts are one by the sum of their counts. An instruction takes its count from a
register modulo 64. With a count of zero it leaves the register and extend alone, and clears carry
and overflow. -/
theorem step_shift (kind : ShiftKind) :
    (∀ v count : UInt32, 1 ≤ count.toNat → count.toNat ≤ 63 →
      kind.apply v count = kind.times v count.toNat) ∧
    (∀ v m n : UInt32, 1 ≤ m.toNat → 1 ≤ n.toNat → m.toNat + n.toNat ≤ 63 →
      kind.apply (kind.apply v m).1 n = kind.apply v (m + n)) ∧
    ∀ (m : Machine β) d s, m.At d → d.mnemonic = kind.mnemonic → d.src = some (.dataReg s) →
      ∃ r m' pc, d.dst = some (.dataReg r) ∧ step .full m = .ok .running m' ∧ m'.bus = m.bus ∧
        let n := (m.cpu.dataReg s).toNat % 64
        kind.Shifted n r { m.cpu with pc := pc } m'.cpu ∧
          (n = 0 → m'.cpu.dataReg r = m.cpu.dataReg r ∧
            m'.cpu.flag .extend = m.cpu.flag .extend ∧ m'.cpu.flag .carry = false ∧
            m'.cpu.flag .overflow = false) := by
  refine ⟨fun v count hpos hle => kind.apply_eq_times v hpos (by omega),
    fun v m n hm hn hle => kind.apply_apply v hm hn (by omega), fun m d s hat hname hsrc => ?_⟩
  obtain ⟨r, pc, hdst, hstep⟩ := hat.shift_completes hname hsrc
  have hcount : (m.cpu.dataReg s % 64).toNat = (m.cpu.dataReg s).toNat % 64 := UInt32.toNat_mod _ _
  have hlt : (m.cpu.dataReg s % 64).toNat < 64 := by
    rw [hcount]
    exact Nat.mod_lt _ (by decide)
  have hshifted := (kind.shifted_after m.cpu r hlt).withPc pc
  rw [hcount] at hshifted
  refine ⟨r, _, pc, hdst, hstep, rfl, hshifted, fun hzero => ?_⟩
  rw [hzero] at hshifted
  obtain ⟨sr, hcpu, -⟩ := hshifted.register
  refine ⟨?_, hshifted.extend, hshifted.carry, hshifted.overflow⟩
  rw [hcpu]
  exact Cpu.dataReg_setDataReg _ _ _

set_option maxRecDepth 2000 in
/-- A count of 97 shifts by 33 bits, of which the last are copies of the sign. -/
theorem step_shift_sign :
    let m : Machine LinearMemory :=
      ⟨{ ((Cpu.new {}).setDataReg 0 0x80000001).setDataReg 1 97 with pc := 0x20 },
        (LinearMemory.zeroed 0x40 0).setBytes 0x20 [0xE2, 0xA0]⟩
    ∃ m', step .full m = .ok .running m' ∧ m'.cpu.dataReg 0 = 0xFFFFFFFF ∧
      m'.cpu.flag .carry = true ∧ m'.cpu.flag .extend = true ∧
      ShiftKind.asr.apply (ShiftKind.asr.apply 0x80000001 31).1 2 = (0xFFFFFFFF, true) := by
  intro m
  let d : Decoded :=
    ⟨⟨some .long, some (.dataReg 1), some (.dataReg 0)⟩, "asr", 0xE2A0, 0x20, 0⟩
  have hlookup : Registry.full.lookup 0xE2A0 .c = some (Catalogue.all[37], 37) :=
    Registry.lookup_of_claims (by decide) (by decide)
  have hdecode : (Catalogue.all[37]).decode (.inMemory ((LinearMemory.zeroed 0x40 0).setBytes 0x20
      [0xE2, 0xA0]) 0xE2A0 0x20) .start = .ok d .start := rfl
  have hfetch : fetch m.bus .word m.cpu.pc = .ok 0xE2A0 := by decide
  have hat : m.At d := Machine.at_of_lookup rfl hfetch hlookup hdecode
  obtain ⟨htimes, hsum, hstep⟩ := step_shift (β := LinearMemory) .asr
  obtain ⟨r, m', pc, hdst, hstep, -, hshifted, -⟩ := hstep m d 1 hat rfl rfl
  cases hdst
  have hvalue : m.cpu.dataReg 0 = 0x80000001 := by decide
  have hcount : (m.cpu.dataReg 1).toNat % 64 = 33 := by decide
  have hresult : ShiftKind.asr.times (m.cpu.dataReg 0) ((m.cpu.dataReg 1).toNat % 64) =
      (0xFFFFFFFF, true) := by
    rw [hvalue, hcount]
    exact (htimes 0x80000001 33 (by decide) (by decide)).symm.trans (by decide)
  have hcarry : m'.cpu.flag .carry = true := hshifted.carry.trans (congrArg Prod.snd hresult)
  obtain ⟨sr, hcpu, -⟩ := hshifted.register
  have hextend : m'.cpu.flag .extend = m'.cpu.flag .carry :=
    hshifted.extend.trans (if_neg (by rw [hcount]; decide))
  refine ⟨m', hstep, ?_, hcarry, hextend.trans hcarry, ?_⟩
  · rw [hcpu]
    exact (Cpu.dataReg_setDataReg _ _ _).trans (congrArg Prod.fst hresult)
  · rw [hsum 0x80000001 31 2 (by decide) (by decide) (by decide)]
    decide

end Run

end ColdFire
