import ColdFire.Instruction.WordSource
import ColdFire.Memory.Bus
import ColdFire.Operand.Location

namespace ColdFire

structure MemoryWrite where
  addr : UInt32
  size : Size
  old : UInt32
deriving DecidableEq

structure Context (β : Type) where
  cpu : Cpu
  bus : β
  pc : UInt32
  opcode : UInt16
  cursor : Cursor
  /-- Where to go on, if not behind the instruction. -/
  jump : Option UInt32
  /-- The writes so far, the latest first. -/
  journal : List MemoryWrite

namespace Context

def start (cpu : Cpu) (bus : β) (pc : UInt32) (opcode : UInt16) : Context β :=
  { cpu := cpu, bus := bus, pc := pc, opcode := opcode, cursor := .start, jump := none,
    journal := [] }

def nextPc (c : Context β) : UInt32 := c.pc + 2 + UInt32.ofNat (2 * c.cursor.consumed)

/-- The address that operands relative to the program counter are counted from. -/
def pcBase (c : Context β) : UInt32 := c.pc + 2 + UInt32.ofNat (2 * c.cursor.pcMark)

def continuation (c : Context β) : UInt32 := c.jump.getD c.nextPc

end Context

def fetch [Bus β] (bus : β) (size : Size) (addr : UInt32) : Except Trap UInt32 :=
  match Bus.read bus size addr with
  | .ok v => .ok v
  | .error cause => .error (.bus addr cause)

def store [Bus β] (size : Size) (addr v : UInt32) : EStateM Trap β Unit := fun bus =>
  match Bus.write size addr v bus with
  | .ok _ bus => .ok () bus
  | .error cause bus => .error (.bus addr cause) bus

def WordSource.inMemory [Bus β] (bus : β) (opcode : UInt16) (address : UInt32) : WordSource where
  opcode := opcode
  address := address
  extension i :=
    (fetch bus .word (address + 2 + UInt32.ofNat (2 * i))).map UInt32.toUInt16

def WordSource.ofBus [Bus β] (bus : β) (address : UInt32) : Except Trap WordSource :=
  (fetch bus .word address).map fun opcode => .inMemory bus opcode.toUInt16 address

/-- Writes back what was overwritten, the latest write first. -/
def rollback [Bus β] : List MemoryWrite → EStateM Trap β Unit
  | [] => pure ()
  | w :: earlier => do
    store w.size w.addr w.old
    rollback earlier

abbrev Exec (β : Type) := EStateM Fault (Context β)

namespace Exec

def cpu : Exec β Cpu := fun c => .ok c.cpu c

def modifyCpu (f : Cpu → Cpu) : Exec β Unit := fun c => .ok () { c with cpu := f c.cpu }

def raise (e : Exception) : Exec β α := throw (.exception e)

def fail (t : Trap) : Exec β α := throw (.trap t)

def ofLogic (x : Except LogicError α) : Exec β α :=
  match x with
  | .ok v => pure v
  | .error e => fail (.logic e)

def undecodable (detail : String) : Exec β α := fun c =>
  .error (.trap (.logic (.undecodable c.opcode detail))) c

def jumpTo (target : UInt32) : Exec β Unit := fun c => .ok () { c with jump := some target }

def nextPc : Exec β UInt32 := fun c => .ok c.nextPc c

def decode [Bus β] (decoder : Decoder α) : Exec β α := fun c =>
  match decoder (.inMemory c.bus c.opcode c.pc) c.cursor with
  | .ok x cursor => .ok x { c with cursor := cursor }
  | .error t cursor => .error (.trap t) { c with cursor := cursor }

def readMem [Bus β] (addr : UInt32) (size : Size) : Exec β UInt32 := fun c =>
  match fetch c.bus size addr with
  | .ok v => .ok v c
  | .error t => .error (.trap t) c

def storeMem [Bus β] (addr : UInt32) (size : Size) (v : UInt32) : Exec β Unit := fun c =>
  let ⟨cpu, bus, pc, opcode, cursor, jump, journal⟩ := c
  match store size addr v bus with
  | .ok _ bus => .ok () ⟨cpu, bus, pc, opcode, cursor, jump, journal⟩
  | .error t bus => .error (.trap t) ⟨cpu, bus, pc, opcode, cursor, jump, journal⟩

def note (w : MemoryWrite) : Exec β Unit := fun c =>
  .ok () { c with journal := w :: c.journal }

def writeMem [Bus β] (addr : UInt32) (size : Size) (v : UInt32) : Exec β Unit := do
  -- A write that fails is not noted, so that it is not taken back.
  let old ← readMem addr size
  storeMem addr size v
  note ⟨addr, size, old⟩

/-- Finds an operand and steps its address register, if it has one to step. -/
def resolve (ea : Ea) (size : Size) : Exec β Location := fun c =>
  match ea.locate c.cpu size c.pcBase with
  | .error e => .error (.trap (.logic e)) c
  | .ok r =>
    match r.update with
    | none => .ok r.location c
    | some (reg, v) => .ok r.location { c with cpu := c.cpu.setAddrReg reg v }

def readSpecial (reg : SpecialReg) : Exec β UInt32 := do
  let cpu ← Exec.cpu
  match reg with
  | .sr => return cpu.sr.toUInt32
  | .ccr => return cpu.ccr.toUInt32
  | .usp => return cpu.usp
  | .control code =>
    match cpu.control? code with
    | some v => return v
    | none => raise .illegalInstruction
  | .cache _ => fail (.logic (.notAddressable (.special reg)))

def writeSpecial (reg : SpecialReg) (v : UInt32) : Exec β Unit := do
  match reg with
  | .sr => modifyCpu (·.setSr v.toUInt16)
  | .ccr => modifyCpu (·.setCcr v.toUInt8)
  | .usp => modifyCpu (·.setUsp v)
  | .control code =>
    match (← Exec.cpu).setControl? code v with
    | some cpu => modifyCpu fun _ => cpu
    | none => raise .illegalInstruction
  | .cache _ => fail (.logic (.notAddressable (.special reg)))

def read [Bus β] (loc : Location) (size : Size) : Exec β UInt32 := do
  match loc with
  | .data r => return (← Exec.cpu).dataReg r &&& size.mask
  | .addr r => return (← Exec.cpu).addrReg r &&& size.mask
  | .mem addr => readMem addr size
  | .imm v => return v &&& size.mask
  | .special reg => readSpecial reg

/-- A write leaves the upper part of a data register and fills all of an address register. -/
def write [Bus β] (loc : Location) (size : Size) (v : UInt32) : Exec β Unit := do
  match loc with
  | .data r =>
    modifyCpu fun cpu =>
      cpu.setDataReg r ((cpu.dataReg r &&& ~~~size.mask) ||| (v &&& size.mask))
  | .addr r => modifyCpu (·.setAddrReg r (size.signExtend v))
  | .mem addr => writeMem addr size v
  | .imm _ => undecodable "write to an immediate operand"
  | .special reg => writeSpecial reg v

def readEa [Bus β] (ea : Ea) (size : Size) : Exec β UInt32 := do
  read (← resolve ea size) size

def writeEa [Bus β] (ea : Ea) (size : Size) (v : UInt32) : Exec β Unit := do
  write (← resolve ea size) size v

/-- Replaces an operand by a function of it. The operand is found once. -/
def modifyEa [Bus β] (ea : Ea) (size : Size) (f : UInt32 → UInt32) : Exec β UInt32 := do
  let loc ← resolve ea size
  let v := f (← read loc size)
  write loc size v
  return v

def addressOf (ea : Ea) : Exec β UInt32 := do
  match ← resolve ea .long with
  | .mem addr => return addr
  | _ => fail (.logic (.notAddressable ea))

/-- Pushes a long; the stack pointer moves only if the write succeeds. -/
def push [Bus β] (v : UInt32) : Exec β Unit := do
  let sp := (← Exec.cpu).sp - 4
  writeMem sp .long v
  modifyCpu (·.setSp sp)

def pull [Bus β] : Exec β UInt32 := do
  let sp := (← Exec.cpu).sp
  let v ← readMem sp .long
  modifyCpu (·.setSp (sp + 4))
  return v

end Exec

end ColdFire
