import ColdFire.Operand.Code

namespace ColdFire

inductive Flow where
  | next
  | branch
  | condBranch
  | call
  /-- A jump through an operand. -/
  | indirect
  | return
  | stop
deriving DecidableEq

inductive Slot where
  | none
  | src
  | dst
  /-- The low field is the source, the field above it the destination with its parts swapped. -/
  | move
deriving DecidableEq

structure Operands where
  size : Option Size := none
  src : Option Ea := none
  dst : Option Ea := none
deriving DecidableEq, Inhabited

structure Decoded extends Operands where
  mnemonic : String
  opcode : UInt16
  address : UInt32
  /-- Extension words behind the opcode word. -/
  extWords : Nat
deriving DecidableEq

namespace Decoded

def length (d : Decoded) : Nat := 2 + 2 * d.extWords

def nextAddress (d : Decoded) : UInt32 := d.address + UInt32.ofNat d.length

def source (d : Decoded) : Except LogicError Ea :=
  match d.src with
  | some ea => .ok ea
  | none => .error (.missingOperand d.mnemonic "source")

def destination (d : Decoded) : Except LogicError Ea :=
  match d.dst with
  | some ea => .ok ea
  | none => .error (.missingOperand d.mnemonic "destination")

def sizeOrLong (d : Decoded) : Size := d.size.getD .long

def branchTarget? (d : Decoded) : Option UInt32 :=
  match d.src with
  | some (.relative off) => some (d.address + 2 + off.toUInt32)
  | _ => none

/-- The address that a branch or a jump leads to, if the instruction alone tells it. -/
def staticTarget? (d : Decoded) : Option UInt32 :=
  match d.src with
  | some (.relative off) => some (d.address + 2 + off.toUInt32)
  | some (.absShort v) => some v.toInt32.toUInt32
  | some (.absLong v) => some v
  | some (.pcDisp disp) => some (d.address + 2 + disp.toInt32.toUInt32)
  | _ => none

end Decoded

/-- One piece of an encoding behind the opcode word. -/
inductive Ext where
  | word (w : UInt16)
  | long (v : UInt32)
  | ea (ea : Ea) (size : Size)
deriving DecidableEq

namespace Ext

def length : Ext → Nat
  | word _ => 1
  | long _ => 2
  | ea e size => e.extWords size

def words : Ext → Except EncodeError (List UInt16)
  | word w => .ok [w]
  | long v => .ok (Ea.longWords v)
  | ea e size => e.words size

end Ext

/-- A planned encoding. Its length and its words are both read off the same pieces. -/
structure Encoding where
  opword : UInt16
  ext : List Ext := []
deriving DecidableEq

namespace Encoding

def length (e : Encoding) : Nat := 2 + 2 * e.ext.foldl (fun n piece => n + piece.length) 0

def words (e : Encoding) : Except EncodeError (List UInt16) := do
  let pieces ← e.ext.mapM Ext.words
  return e.opword :: pieces.flatten

end Encoding

end ColdFire
