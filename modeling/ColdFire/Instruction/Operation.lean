import ColdFire.Operand.Basic

namespace ColdFire

inductive ArithOp where
  | add | sub | cmp
deriving DecidableEq

def ArithOp.apply (op : ArithOp) (dst src : UInt32) : UInt32 :=
  match op with
  | add => dst + src
  | sub | cmp => dst - src

inductive LogicOp where
  | and | or | xor
deriving DecidableEq

def LogicOp.apply (op : LogicOp) (a b : UInt32) : UInt32 :=
  match op with
  | and => a &&& b
  | or => a ||| b
  | xor => a ^^^ b

inductive BitOp where
  | test | change | clear | set
deriving DecidableEq

inductive ShiftKind where
  | asl | asr | lsl | lsr
deriving DecidableEq

inductive Operation where
  | arith (op : ArithOp)
  /-- Arithmetic on an address register; the source is widened to a long. -/
  | addressArith (op : ArithOp)
  /-- Arithmetic with the extend flag as a third operand. -/
  | extendedArith (op : ArithOp)
  | negate (withExtend : Bool)
  | clear
  | test
  /-- Widens the low part of a register, of the given size, with its sign. -/
  | extend (narrow : Size)
  | logic (op : LogicOp)
  | complement
  | shift (kind : ShiftKind)
  | bit (op : BitOp)
  | multiplyWord (signed : Bool)
  | divideWord (signed : Bool)
  | multiplyLong
  | divideLong
  | move
  /-- A move that leaves the flags alone. -/
  | transfer
  | moveExtend (signed : Bool)
  | storeList
  | loadList
  | loadAddress
  | pushAddress
  | swapHalves
  | link
  | unlink
  | branch (cond : UInt16)
  | setCondition
  | nothing
  | jump
  | call
  | returnFromCall
  | illegal
  | halt
  | returnFromException
  | stop
  | trap
  /-- Known to the decoder and the encoder only. -/
  | unsimulated
deriving DecidableEq

end ColdFire
