import ColdFire.Cpu.Flags
import ColdFire.Execution.Arithmetic
import ColdFire.Execution.Context
import ColdFire.Instruction.Decode

namespace ColdFire

def ArithOp.alu : ArithOp → AluOp
  | add => .add
  | sub => .sub
  | cmp => .cmp

def BitOp.apply (op : BitOp) (v mask : UInt32) : UInt32 :=
  match op with
  | test => v
  | change => v ^^^ mask
  | clear => v &&& ~~~mask
  | set => v ||| mask

/-- The register at a position of a register list: D0 to D7, then A0 to A7. -/
def Cpu.listed (cpu : Cpu) (i : Nat) : UInt32 :=
  if i < 8 then cpu.dataReg (UInt8.ofNat i) else cpu.addrReg (UInt8.ofNat (i - 8))

def Cpu.setListed (cpu : Cpu) (i : Nat) (v : UInt32) : Cpu :=
  if i < 8 then cpu.setDataReg (UInt8.ofNat i) v else cpu.setAddrReg (UInt8.ofNat (i - 8)) v

/-- A division sets the flags from its quotient, or else overflow. -/
def Cpu.setDivFlags (cpu : Cpu) (quotient : Option UInt32) (size : Size) : Cpu :=
  match quotient with
  | some q => cpu.setLogicFlags q size
  | none => (cpu.setFlag .overflow true).setFlag .carry false

namespace Exec

variable {β : Type} [Bus β]

def storeListed : List Nat → UInt32 → Exec β Unit
  | [], _ => pure ()
  | i :: rest, addr => do
    writeMem addr .long ((← Exec.cpu).listed i)
    storeListed rest (addr + 4)

def loadListed : List Nat → UInt32 → Exec β Unit
  | [], _ => pure ()
  | i :: rest, addr => do
    let v ← readMem addr .long
    modifyCpu (·.setListed i v)
    loadListed rest (addr + 4)

def logicFlags (v : UInt32) (size : Size) : Exec β Unit :=
  modifyCpu (·.setLogicFlags v size)

def asDataReg (ea : Ea) : Exec β UInt8 :=
  match ea with
  | .dataReg r => pure r
  | _ => undecodable "data register destination expected"

def asAddrReg (ea : Ea) : Exec β UInt8 :=
  match ea with
  | .addrReg r => pure r
  | _ => undecodable "address register destination expected"

def asList (ea : Ea) : Exec β UInt16 :=
  match ea with
  | .regList mask => pure mask
  | _ => undecodable "register list"

/-- A shift count: the data itself, or a register modulo 64. -/
def shiftCount (ea : Ea) : Exec β UInt32 := do
  match ea with
  | .dataReg r => return (← Exec.cpu).dataReg r % 64
  | .immediate n => return n
  | _ => undecodable s!"shift count {ea.describe}"

def bitNumber (ea : Ea) : Exec β UInt32 := do
  match ea with
  | .dataReg r => return (← Exec.cpu).dataReg r
  | .immediate n => return n
  | _ => undecodable "bit number"

def arith (op : ArithOp) (d : Decoded) : Exec β Unit := do
  let src ← ofLogic d.source
  let dst ← ofLogic d.destination
  let size := d.sizeOrLong
  let b ← readEa src size
  let loc ← resolve dst size
  let a ← read loc size
  let r := op.apply a b
  -- The destination is found once, so that its register steps once.
  if op ≠ .cmp then write loc size r
  match loc with
  | .addr _ => pure ()
  | _ => modifyCpu (·.setArithFlags r a b size false op.alu)

def addressArith (op : ArithOp) (d : Decoded) : Exec β Unit := do
  let src ← ofLogic d.source
  let dst ← ofLogic d.destination
  let size := d.sizeOrLong
  let b := size.signExtend (← readEa src size)
  let r ← asAddrReg dst
  let a := (← Exec.cpu).addrReg r
  let v := op.apply a b
  if op = .cmp then modifyCpu (·.setArithFlags v a b .long false .cmp)
  else modifyCpu (·.setAddrReg r v)

def extendedArith (op : ArithOp) (d : Decoded) : Exec β Unit := do
  let src ← ofLogic d.source
  let dst ← ofLogic d.destination
  let b ← readEa src .long
  let loc ← resolve dst .long
  let a ← read loc .long
  let x := ((← Exec.cpu).flag .extend).toUInt32
  let r := op.apply (op.apply a b) x
  write loc .long r
  modifyCpu (·.setArithFlags r a b .long true op.alu)

def negate (withExtend : Bool) (d : Decoded) : Exec β Unit := do
  let dst ← ofLogic d.destination
  let loc ← resolve dst .long
  let b ← read loc .long
  let x := (withExtend && (← Exec.cpu).flag .extend).toUInt32
  let r := 0 - b - x
  write loc .long r
  modifyCpu (·.setArithFlags r 0 b .long withExtend .neg)

def shift (kind : ShiftKind) (d : Decoded) : Exec β Unit := do
  let count ← shiftCount (← ofLogic d.source)
  let dst ← ofLogic d.destination
  let loc ← resolve dst .long
  let v ← read loc .long
  -- A count of zero clears carry and leaves extend.
  if count = 0 then logicFlags v .long
  else
    let (r, carry) := kind.apply v count
    write loc .long r
    logicFlags r .long
    modifyCpu fun cpu => (cpu.setFlag .carry carry).setFlag .extend carry

def bit (op : BitOp) (d : Decoded) : Exec β Unit := do
  let number ← bitNumber (← ofLogic d.source)
  let dst ← ofLogic d.destination
  let size := dst.bitSize
  let mask := 1 <<< (number % UInt32.ofNat size.bits)
  let loc ← resolve dst size
  let v ← read loc size
  modifyCpu (·.setFlag .zero (v &&& mask == 0))
  if op ≠ .test then write loc size (op.apply v mask)

def multiplyWord (signed : Bool) (d : Decoded) : Exec β Unit := do
  let src ← readEa (← ofLogic d.source) .word
  let r ← asDataReg (← ofLogic d.destination)
  let dn := (← Exec.cpu).dataReg r
  let product :=
    if signed then Size.word.signExtend dn * Size.word.signExtend src else (dn &&& 0xFFFF) * src
  modifyCpu (·.setDataReg r product)
  logicFlags product .long

def divideWord (signed : Bool) (d : Decoded) : Exec β Unit := do
  let src ← readEa (← ofLogic d.source) .word
  let r ← asDataReg (← ofLogic d.destination)
  let dn := (← Exec.cpu).dataReg r
  let divisor := if signed then Size.word.signExtend src else src
  if divisor = 0 then raise .divideByZero
  else
    let result := divide dn divisor signed 16
    match result with
    | some (q, rem) => modifyCpu (·.setDataReg r ((rem <<< 16) ||| (q &&& 0xFFFF)))
    | none => pure ()
    modifyCpu (·.setDivFlags (result.map (·.1)) .word)

def multiplyLong (d : Decoded) : Exec β Unit := do
  let src ← readEa (← ofLogic d.source) .long
  let r ← asDataReg (← ofLogic d.destination)
  let product := (← Exec.cpu).dataReg r * src
  modifyCpu (·.setDataReg r product)
  logicFlags product .long

/-- A pair of registers takes the remainder into the first and keeps the dividend in the second. -/
def divideLong (d : Decoded) : Exec β Unit := do
  let divisor ← readEa (← ofLogic d.source) .long
  if divisor = 0 then raise .divideByZero
  else
    let signed := "s".toList.isSuffixOf d.mnemonic.toList
    let dst ← ofLogic d.destination
    let (target, dividend) ← match dst with
      | .dataReg q => pure (none, q)
      | .regPair r q => pure (some r, q)
      | _ => undecodable "divide destination"
    let result := divide ((← Exec.cpu).dataReg dividend) divisor signed 32
    match result with
    | some (q, rem) =>
      match target with
      | none => modifyCpu (·.setDataReg dividend q)
      | some r => modifyCpu (·.setDataReg r rem)
    | none => pure ()
    modifyCpu (·.setDivFlags (result.map (·.1)) .long)

def link (d : Decoded) : Exec β Unit := do
  let src ← ofLogic d.source
  let dst ← ofLogic d.destination
  match src, dst with
  | .addrReg r, .immediate displacement =>
    -- The frame pointer is saved first and then set to where it was saved.
    push ((← Exec.cpu).addrReg r)
    let sp := (← Exec.cpu).sp
    modifyCpu (·.setAddrReg r sp)
    modifyCpu (·.setSp (sp + Size.word.signExtend displacement))
  | _, _ => undecodable "link operands"

def unlink (d : Decoded) : Exec β Unit := do
  let r ← asAddrReg (← ofLogic d.destination)
  modifyCpu fun cpu => cpu.setSp (cpu.addrReg r)
  let v ← pull
  modifyCpu (·.setAddrReg r v)

/-- Condition 1 is a call. -/
def branch (cond : UInt16) (d : Decoded) : Exec β Unit := do
  match ← ofLogic d.source with
  | .relative off =>
    let target := d.address + 2 + off.toUInt32
    if cond = 1 then
      push (← nextPc)
      jumpTo target
    else if Condition.holds cond (← Exec.cpu).sr then jumpTo target
  | _ => undecodable "branch displacement"

def returnFromException : Exec β Unit := do
  let frame ← pull
  let pc ← pull
  let format := frame >>> 28
  if format < 4 ∨ 7 < format then raise .formatError
  else
    -- The stack pointer is put right before the mode, and with it the pointer, may change.
    modifyCpu fun cpu => (cpu.setSp (cpu.sp + (format &&& 3))).setSr frame.toUInt16
    jumpTo pc

def perform (op : Operation) (d : Decoded) : Exec β Unit := do
  match op with
  | .arith op => arith op d
  | .addressArith op => addressArith op d
  | .extendedArith op => extendedArith op d
  | .negate withExtend => negate withExtend d
  | .clear =>
    let size := d.sizeOrLong
    writeEa (← ofLogic d.destination) size 0
    logicFlags 0 size
  | .test =>
    let size := d.sizeOrLong
    logicFlags (← readEa (← ofLogic d.source) size) size
  | .extend narrow =>
    let size := d.sizeOrLong
    let loc ← resolve (← ofLogic d.destination) size
    let v := narrow.signExtend (← read loc narrow)
    write loc size v
    logicFlags v size
  | .logic op =>
    let b ← readEa (← ofLogic d.source) .long
    logicFlags (← modifyEa (← ofLogic d.destination) .long fun a => op.apply a b) .long
  | .complement =>
    logicFlags (← modifyEa (← ofLogic d.destination) .long fun a => ~~~a) .long
  | .shift kind => shift kind d
  | .bit op => bit op d
  | .multiplyWord signed => multiplyWord signed d
  | .divideWord signed => divideWord signed d
  | .multiplyLong => multiplyLong d
  | .divideLong => divideLong d
  | .move =>
    let size := d.sizeOrLong
    let v ← readEa (← ofLogic d.source) size
    writeEa (← ofLogic d.destination) size v
    logicFlags v size
  | .transfer =>
    let size := d.sizeOrLong
    let v ← readEa (← ofLogic d.source) size
    writeEa (← ofLogic d.destination) size v
  | .moveExtend signed =>
    let size := d.sizeOrLong
    let raw ← readEa (← ofLogic d.source) size
    let v := if signed then size.signExtend raw else raw
    writeEa (← ofLogic d.destination) .long v
    logicFlags v .long
  | .storeList =>
    let mask ← asList (← ofLogic d.source)
    storeListed (RegList.members mask) (← addressOf (← ofLogic d.destination))
  | .loadList =>
    let mask ← asList (← ofLogic d.destination)
    loadListed (RegList.members mask) (← addressOf (← ofLogic d.source))
  | .loadAddress =>
    let addr ← addressOf (← ofLogic d.source)
    writeEa (← ofLogic d.destination) .long addr
  | .pushAddress => push (← addressOf (← ofLogic d.source))
  | .swapHalves =>
    let r ← modifyEa (← ofLogic d.destination) .long fun v => (v <<< 16) ||| (v >>> 16)
    logicFlags r .long
  | .link => link d
  | .unlink => unlink d
  | .branch cond => branch cond d
  | .setCondition =>
    let met := Condition.holds (Field.cond.get d.opcode) (← Exec.cpu).sr
    writeEa (← ofLogic d.destination) .byte (if met then 0xFF else 0)
  | .nothing => pure ()
  | .jump => jumpTo (← addressOf (← ofLogic d.source))
  | .call =>
    let target ← addressOf (← ofLogic d.source)
    push (← nextPc)
    jumpTo target
  | .returnFromCall => jumpTo (← pull)
  | .illegal => raise .illegalInstruction
  | .halt => modifyCpu ({ · with state := .halted })
  | .returnFromException => returnFromException
  | .stop =>
    let sr ← readEa (← ofLogic d.source) .word
    modifyCpu fun cpu => { cpu.setSr sr.toUInt16 with state := .stopped }
  | .trap => raise (.trap (Field.vector.get d.opcode).toUInt8)
  | .unsimulated => fail (.unsimulated d.mnemonic d.address)

def execute (d : Definition) : Exec β Unit := do
  perform d.operation (← decode d.decode)

end Exec

end ColdFire
