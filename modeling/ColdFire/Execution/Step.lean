import ColdFire.Execution.Perform
import ColdFire.Registry

namespace ColdFire

structure Machine (β : Type) where
  cpu : Cpu
  bus : β

abbrev Run (β : Type) := EStateM Trap (Machine β)

namespace Run

variable {β : Type} [Bus β]

def cpu : Run β Cpu := fun m => .ok m.cpu m

def setCpu (cpu : Cpu) : Run β Unit := fun m => .ok () { m with cpu := cpu }

def readMem (size : Size) (addr : UInt32) : Run β UInt32 := fun m =>
  match fetch m.bus size addr with
  | .ok v => .ok v m
  | .error t => .error t m

def writeMem (size : Size) (addr v : UInt32) : Run β Unit := fun m =>
  let ⟨cpu, bus⟩ := m
  match store size addr v bus with
  | .ok _ bus => .ok () ⟨cpu, bus⟩
  | .error t bus => .error t ⟨cpu, bus⟩

/-- Writes a long; if that fails, runs `undo` before the failure is reported. -/
def writeLongOr (addr v : UInt32) (undo : Run β Unit) : Run β Unit := fun m =>
  match writeMem .long addr v m with
  | .ok _ m => .ok () m
  | .error t m =>
    match undo m with
    | .ok _ m => .error t m
    | .error u m => .error u m

/-- Enters an exception: stacks the frame on an aligned supervisor stack and goes on at the handler.
Nothing is committed before handler and frame are known to be in memory. -/
def enterException (e : Exception) (faultPc : UInt32) : Run β Unit := do
  let cpu ← Run.cpu
  let ssp := cpu.ssp
  let frameSp := (ssp &&& ~~~3) - 8
  let pcSlot := frameSp + 4
  -- Both reads come first, so that a missing handler or stack leaves no trace.
  let handler ← readMem .long (cpu.vbr + e.vector * 4)
  let saved ← readMem .long pcSlot
  writeMem .long pcSlot faultPc
  writeLongOr frameSp (Exception.frameWord (ssp &&& 3) e.vector cpu.sr)
    (writeMem .long pcSlot saved)
  let status := Flag.master.put false (Flag.trace.put false (Flag.supervisor.put true cpu.sr))
  -- The status goes first: it makes the supervisor stack pointer the current one.
  let entered := (cpu.setSr status).setSp frameSp
  setCpu { entered with
    pc := handler
    state := if cpu.state = .stopped then .running else cpu.state }

/-- The exception that a word which no definition claims raises. -/
def unclaimed (opcode : UInt16) : Exception :=
  match (opcode >>> 12).toNat with
  | 0xA => .lineA
  | 0xF => .lineF
  | _ => .illegalInstruction

/-- A reserved encoding counts as an illegal instruction. -/
def delivered : Fault → Fault
  | .trap (.reserved ..) => .exception .illegalInstruction
  | f => f

def execute (d : Definition) (opcode : UInt16) : Run β Unit := fun m =>
  let ⟨saved, bus⟩ := m
  match Exec.execute d (.start saved bus saved.pc opcode) with
  | .ok _ c => .ok () ⟨{ c.cpu with pc := c.continuation }, c.bus⟩
  | .error fault c =>
    -- A trap returns behind the words that were read before it was raised.
    let next := c.nextPc
    match rollback c.journal c.bus with
    | .error t bus => .error t ⟨saved, bus⟩
    | .ok _ bus =>
      match delivered fault with
      | .exception e =>
        enterException e (if e.stacksNextPc then next else saved.pc) ⟨saved, bus⟩
      | .trap t => .error t ⟨saved, bus⟩

/-- Executes one instruction, unless the processor has stopped. The instruction is completed, or an
exception is entered as if it had never begun, or the step fails and changes nothing. -/
def step (r : Registry) : Run β RunState := do
  let cpu ← Run.cpu
  if cpu.state ≠ .running then return cpu.state
  else
    -- Not to fetch the opcode word is a failure of the machine, not an exception.
    let opcode := (← readMem .word cpu.pc).toUInt16
    match r.lookup opcode cpu.config.tier with
    | none => enterException (unclaimed opcode) cpu.pc
    | some (d, _) =>
      if d.privileged && !cpu.isSupervisor then enterException .privilegeViolation cpu.pc
      else execute d opcode
    return (← Run.cpu).state

/-- Steps until the processor stops or `max` more instructions are done; `count` are done
already. -/
def stepsFrom (r : Registry) : Nat → Nat → Run β (RunState × Nat)
  | 0, count => fun m => .ok (m.cpu.state, count) m
  | max + 1, count => fun m =>
    match step r m with
    | .ok state m =>
      if state = .running then stepsFrom r max (count + 1) m else .ok (state, count + 1) m
    | .error t m => .error t m

def steps (r : Registry) (max : Nat) : Run β (RunState × Nat) := stepsFrom r max 0

/-- Resets the processor from the first two longs of the vector table: stack pointer and program
counter. -/
def resetFromVectors : Run β Unit := do
  let cpu ← Run.cpu
  let ssp ← readMem .long cpu.vbr
  let pc ← readMem .long (cpu.vbr + 4)
  setCpu ((cpu.reset pc).setSp ssp)

def pull : Run β UInt32 := do
  let cpu ← Run.cpu
  let v ← readMem .long cpu.sp
  setCpu (cpu.setSp (cpu.sp + 4))
  return v

end Run

end ColdFire
