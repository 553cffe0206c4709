import ColdFire.Operand.Modes
import ColdFire.Word.Size

namespace ColdFire

structure IndexReg where
  addr : Bool
  reg : UInt8
  long : Bool
  scale : UInt8
deriving DecidableEq, Inhabited

/-- Registers that only system instructions name. -/
inductive SpecialReg where
  | sr
  | ccr
  | usp
  | control (code : UInt16)
  /-- The cache that CPUSHL works on: 1 data, 2 instruction, 3 both. -/
  | cache (selector : UInt8)
deriving DecidableEq, Inhabited

inductive Ea where
  | dataReg (reg : UInt8)
  | addrReg (reg : UInt8)
  | indirect (reg : UInt8)
  | postInc (reg : UInt8)
  | preDec (reg : UInt8)
  | disp (reg : UInt8) (disp : Int16)
  | index (reg : UInt8) (disp : Int8) (index : IndexReg)
  | absShort (addr : Int16)
  | absLong (addr : UInt32)
  | pcDisp (disp : Int16)
  | pcIndex (disp : Int8) (index : IndexReg)
  | immediate (value : UInt32)
  /-- A set of registers: bit 0 is D0, bit 15 is A7. -/
  | regList (mask : UInt16)
  /-- A branch displacement, counted from two past the opcode word. -/
  | relative (offset : Int32)
  /-- The register for a remainder and the one that holds the dividend. -/
  | regPair (remainder dividend : UInt8)
  | special (reg : SpecialReg)
deriving DecidableEq, Inhabited

namespace Ea

/-- The addressing mode; operands outside the operand field of an opcode have none. -/
def modes : Ea → Modes
  | dataReg _ => .dn
  | addrReg _ => .an
  | indirect _ => .ind
  | postInc _ => .postInc
  | preDec _ => .preDec
  | disp .. => .disp
  | index .. => .index
  | absShort _ => .absShort
  | absLong _ => .absLong
  | pcDisp _ => .pcDisp
  | pcIndex .. => .pcIndex
  | immediate _ => .imm
  | regList _ | relative _ | regPair .. | special _ => .none

def field? : Ea → Option (UInt16 × UInt16)
  | dataReg r => some (0, r.toUInt16)
  | addrReg r => some (1, r.toUInt16)
  | indirect r => some (2, r.toUInt16)
  | postInc r => some (3, r.toUInt16)
  | preDec r => some (4, r.toUInt16)
  | disp r _ => some (5, r.toUInt16)
  | index r _ _ => some (6, r.toUInt16)
  | absShort _ => some (7, 0)
  | absLong _ => some (7, 1)
  | pcDisp _ => some (7, 2)
  | pcIndex .. => some (7, 3)
  | immediate _ => some (7, 4)
  | regList _ | relative _ | regPair .. | special _ => none

def lowField? (ea : Ea) : Option UInt16 :=
  ea.field?.map fun (mode, reg) => (mode <<< 3) ||| reg

def extWords (ea : Ea) (size : Size) : Nat :=
  match ea with
  | disp .. | index .. | absShort _ | pcDisp _ | pcIndex .. => 1
  | absLong _ => 2
  | immediate _ => if size = .long then 2 else 1
  | _ => 0

def isRegister : Ea → Bool
  | dataReg _ | addrReg _ => true
  | _ => false

end Ea

end ColdFire
