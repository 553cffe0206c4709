import ColdFire.Cpu.Basic
import ColdFire.Fault

namespace ColdFire

inductive Location where
  | data (reg : UInt8)
  | addr (reg : UInt8)
  | mem (addr : UInt32)
  | imm (value : UInt32)
  | special (reg : SpecialReg)
deriving DecidableEq

/-- A location, and the address register that reaching it changes with its new value. -/
structure Resolved where
  location : Location
  update : Option (UInt8 × UInt32) := none
deriving DecidableEq

def IndexReg.value (ix : IndexReg) (cpu : Cpu) : UInt32 :=
  let raw := if ix.addr then cpu.addrReg ix.reg else cpu.dataReg ix.reg
  let v := if ix.long then raw else Size.word.signExtend raw
  v * ix.scale.toUInt32

/-- By how much an address register steps. The stack pointer stays even. -/
def Size.step (size : Size) (reg : UInt8) : UInt32 :=
  if size = .byte ∧ reg = 7 then 2 else UInt32.ofNat size.bytes

/-- Where an operand is, without going there. `pcBase` is the address that operands relative to the
program counter are counted from. -/
def Ea.locate (ea : Ea) (cpu : Cpu) (size : Size) (pcBase : UInt32) : Except LogicError Resolved :=
  match ea with
  | .dataReg r => .ok ⟨.data r, none⟩
  | .addrReg r => .ok ⟨.addr r, none⟩
  | .indirect r => .ok ⟨.mem (cpu.addrReg r), none⟩
  | .postInc r =>
    let addr := cpu.addrReg r
    .ok ⟨.mem addr, some (r, addr + size.step r)⟩
  | .preDec r =>
    let addr := cpu.addrReg r - size.step r
    .ok ⟨.mem addr, some (r, addr)⟩
  | .disp r d => .ok ⟨.mem (cpu.addrReg r + d.toInt32.toUInt32), none⟩
  | .index r d ix => .ok ⟨.mem (cpu.addrReg r + d.toInt32.toUInt32 + ix.value cpu), none⟩
  | .absShort v => .ok ⟨.mem v.toInt32.toUInt32, none⟩
  | .absLong v => .ok ⟨.mem v, none⟩
  | .pcDisp d => .ok ⟨.mem (pcBase + d.toInt32.toUInt32), none⟩
  | .pcIndex d ix => .ok ⟨.mem (pcBase + d.toInt32.toUInt32 + ix.value cpu), none⟩
  | .immediate v => .ok ⟨.imm v, none⟩
  | .special s => .ok ⟨.special s, none⟩
  | .regList _ | .relative _ | .regPair .. => .error (.notAddressable ea)

end ColdFire
