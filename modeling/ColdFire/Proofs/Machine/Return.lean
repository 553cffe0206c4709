import ColdFire.Proofs.Cpu.Handler
import ColdFire.Proofs.Execution.Ending

namespace ColdFire

namespace Exec

variable {β : Type} [Bus β] {c : Context β} {frame pc v : UInt32}

theorem pull_of_fetch (h : fetch c.bus .long c.cpu.sp = .ok v) :
    pull c = .ok v { c with cpu := c.cpu.setSp (c.cpu.sp + 4) } := by
  simp only [pull, bind, EStateM.bind, Exec.cpu, readMem, h, modifyCpu]
  rfl

theorem returnFromException_of_fetch {format : UInt32} (hformat : frame >>> 28 = format)
    (hvalid : ¬(format < 4 ∨ 7 < format)) (hframe : fetch c.bus .long c.cpu.sp = .ok frame)
    (hpc : fetch c.bus .long (c.cpu.sp + 4) = .ok pc) :
    returnFromException c = .ok ()
      { c with
        cpu := (c.cpu.setSp (c.cpu.sp + 4 + 4 + (format &&& 3))).setSr frame.toUInt16
        jump := some pc } := by
  have hsecond := pull_of_fetch (c := { c with cpu := c.cpu.setSp (c.cpu.sp + 4) }) (v := pc)
    (by rw [Cpu.sp_setSp]; exact hpc)
  subst hformat
  unfold returnFromException
  simp only [bind, EStateM.bind, pull_of_fetch hframe, hsecond]
  rw [if_neg hvalid]
  simp only [EStateM.bind, modifyCpu, jumpTo, Cpu.sp_setSp]
  simp only [Cpu.setSp, Cpu.setAddrReg_setAddrReg]

end Exec

namespace Run

section Return

variable {β : Type} [Bus β] {m : Machine β} {frame pc format : UInt32}

theorem lookup_return (tier : Tier) :
    ∃ x, Registry.full.lookup 0x4E73 tier = some x ∧ x.1.operation = .returnFromException ∧
      x.1.format = .bare := by
  have h : ∃ x ∈ Registry.full.entries, x.1.claims 0x4E73 tier = true ∧
      x.1.operation = .returnFromException ∧ x.1.format = .bare := by
    cases tier <;> decide +kernel
  obtain ⟨x, hx, hclaims, hop, hformat⟩ := h
  exact ⟨x, Registry.lookup_of_claims hx hclaims, hop, hformat⟩

theorem step_return (running : m.cpu.state = .running) (hmode : m.cpu.isSupervisor = true)
    (hopcode : fetch m.bus .word m.cpu.pc = .ok 0x4E73) (hformat : frame >>> 28 = format)
    (hvalid : ¬(format < 4 ∨ 7 < format)) (hframe : fetch m.bus .long m.cpu.sp = .ok frame)
    (hpc : fetch m.bus .long (m.cpu.sp + 4) = .ok pc) :
    step .full m = .ok .running
      ⟨{ (m.cpu.setSp (m.cpu.sp + 4 + 4 + (format &&& 3))).setSr frame.toUInt16 with pc := pc },
        m.bus⟩ := by
  obtain ⟨x, hlookup, hop, hbare⟩ := lookup_return m.cpu.config.tier
  have hdecode : x.1.decode (.inMemory m.bus 0x4E73 m.cpu.pc) .start =
      .ok ⟨{}, x.1.mnemonic, 0x4E73, m.cpu.pc, 0⟩ .start := by
    rw [Definition.decode, hbare]
    rfl
  have hperform := Exec.returnFromException_of_fetch
    (c := .ready m.cpu m.bus m.cpu.pc 0x4E73 .start) hformat hvalid hframe hpc
  have hexec : Exec.execute x.1 (.start m.cpu m.bus m.cpu.pc 0x4E73) =
      Exec.returnFromException (.ready m.cpu m.bus m.cpu.pc 0x4E73 .start) := by
    rw [Exec.execute_of_decode hdecode, hop]
    rfl
  have hpriv : (x.1.privileged && !m.cpu.isSupervisor) = false := by
    rw [hmode, Bool.not_true, Bool.and_false]
  rw [step_of_running running, ending_of_lookup hopcode hlookup hpriv]
  change conclude m.cpu (endingOf x.1 0x4E73 m) = _
  rw [endingOf, hexec, hperform]
  refine congrArg (EStateM.Result.ok · _) ?_
  exact (Cpu.state_setSr _ _).trans running

end Return

variable {m m₁ : Machine LinearMemory} {e : Exception} {faultPc : UInt32}

theorem fetch_frame {handler : UInt32} {bus : LinearMemory}
    (h : Entered e faultPc m m₁ handler bus) :
    fetch m₁.bus .long m.cpu.frameSp = .ok (frameWord m.cpu e) ∧
      fetch m₁.bus .long (m.cpu.frameSp + 4) = .ok faultPc := by
  have hpc := store_eq_ok.1 h.storesPc
  have hword := store_eq_ok.1 h.storesWord
  constructor
  · rw [fetch_eq_ok, ← Bus.value_bytes_long (frameWord m.cpu e)]
    exact LinearMemory.read_write hword
  · rw [fetch_eq_ok]
    apply LinearMemory.read_write_before hword
    rw [← Bus.value_bytes_long faultPc]
    exact LinearMemory.read_write hpc

def frameFormat (cpu : Cpu) (e : Exception) : UInt32 := frameWord cpu e >>> 28

theorem frameFormat_valid (cpu : Cpu) (e : Exception) :
    ¬(frameFormat cpu e < 4 ∨ 7 < frameFormat cpu e) :=
  Exception.frameWord_valid _ _ _

/-- The frame gives back the stack pointer that was aligned for it. -/
theorem ssp_of_frame (cpu : Cpu) (e : Exception) :
    cpu.frameSp + 4 + 4 + (frameFormat cpu e &&& 3) = cpu.ssp := by
  have hmisalign : frameFormat cpu e &&& 3 = cpu.ssp &&& 3 := by
    rw [frameFormat, frameWord, Exception.frameWord_misalign, UInt32.and_assoc]
    rfl
  have hframe : cpu.frameSp + 4 + 4 = cpu.ssp &&& ~~~3 := by
    rw [Cpu.frameSp, UInt32.add_assoc]
    exact UInt32.sub_add_cancel _ _
  rw [hmisalign, hframe, and_not_add_and]

/-- If the first instruction of a handler is a return, it brings back the processor as it was when
the exception was entered, at the address that was stacked, and memory stays. -/
theorem step_return_of_entered (running : m.cpu.state = .running)
    (hsr : m.cpu.sr &&& Status.implemented = m.cpu.sr)
    (hentry : enterException e faultPc m = .ok () m₁)
    (hreturn : fetch m₁.bus .word m₁.cpu.pc = .ok 0x4E73) :
    step .full m₁ = .ok .running ⟨{ m.cpu with pc := faultPc }, m₁.bus⟩ := by
  obtain ⟨handler, bus, hentered⟩ := entered_of_ok hentry
  obtain ⟨hword, hpc⟩ := fetch_frame hentered
  have hcpu := hentered.cpu
  have hrunning : m₁.cpu.state = .running := by
    rw [hcpu, Cpu.atHandler, running]
    rfl
  have hmode : m₁.cpu.isSupervisor = true := by
    rw [hcpu, Cpu.isSupervisor_atHandler]
  have hsp : m₁.cpu.sp = m.cpu.frameSp := by
    rw [hcpu, Cpu.sp_atHandler]
  have hstatus : (frameWord m.cpu e).toUInt16 = m.cpu.sr := Exception.frameWord_status _ _ _
  have hstack := ssp_of_frame m.cpu e
  rw [← hsp] at hword hpc hstack
  have hformat : frameWord m.cpu e >>> 28 = frameFormat m.cpu e := rfl
  have hstep := step_return hrunning hmode hreturn hformat (frameFormat_valid m.cpu e) hword hpc
  have hback := m.cpu.setSr_setSp_atHandler handler hsr (by rw [running]; exact nofun)
  rw [hstatus, hstack, hcpu, hback] at hstep
  exact hstep

theorem step_return_of_entered_trap :
    let m : Machine LinearMemory :=
      ⟨{ (Cpu.new {}).setSp 0x60 with sr := 0x0004, otherSp := 0x7E },
        ((LinearMemory.zeroed 0x100 0).setBytes 0x80 [0, 0, 0, 0x40]).setBytes 0x40 [0x4E, 0x73]⟩
    ∃ m₁, enterException (.trap 0) 0x22 m = .ok () m₁ ∧ m₁.cpu.sp = 0x74 ∧
      step .full m₁ = .ok .running ⟨{ m.cpu with pc := 0x22 }, m₁.bus⟩ := by
  intro m
  obtain ⟨_, m₁, hentry, hm₁⟩ := of_run' (x := enterException (.trap 0) 0x22) (s := m)
    (p := fun _ m₁ => m₁.cpu.sp = 0x74 ∧ fetch m₁.bus .word m₁.cpu.pc = .ok 0x4E73)
    (by decide)
  obtain ⟨hsp, hreturn⟩ := of_decide_eq_true hm₁
  exact ⟨m₁, hentry, hsp, step_return_of_entered rfl (by decide) hentry hreturn⟩

end Run

end ColdFire
