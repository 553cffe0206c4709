import ColdFire.Cpu.Basic
import ColdFire.Word.Size

namespace ColdFire

/-- The kinds of arithmetic that set carry and overflow each in their own way. -/
inductive AluOp where
  /-- The sum `a + b`. -/
  | add
  /-- The difference `a - b`. -/
  | sub
  /-- The difference `a - b`, for its flags only. -/
  | cmp
  /-- The negative `0 - b`. -/
  | neg
deriving DecidableEq

def carryOverflow (op : AluOp) (result a b : UInt32) (size : Size) : Bool × Bool :=
  let r := result &&& size.mask
  let a := a &&& size.mask
  let b := b &&& size.mask
  let sign (v : UInt32) : Bool := v &&& size.msb != 0
  match op with
  | .add => (sign ((a &&& b) ||| ((a ||| b) &&& ~~~r)), sign ((a ^^^ r) &&& (b ^^^ r)))
  | .sub | .cmp =>
    (sign ((b &&& ~~~a) ||| (r &&& ~~~a) ||| (b &&& r)), sign ((a ^^^ b) &&& (a ^^^ r)))
  | .neg => (sign (b ||| r), sign (b &&& r))

namespace Cpu

/-- Sets the condition codes after arithmetic. With `chained`, zero is cleared but never set, so
that it tells of a whole chain of operations; a comparison leaves extend alone. -/
def setArithFlags (cpu : Cpu) (result a b : UInt32) (size : Size) (chained : Bool) (op : AluOp) :
    Cpu :=
  let (carry, overflow) := carryOverflow op result a b size
  let r := result &&& size.mask
  let cpu := cpu.setFlag .negative (r &&& size.msb != 0)
  let cpu :=
    if chained then if r = 0 then cpu else cpu.setFlag .zero false
    else cpu.setFlag .zero (r == 0)
  let cpu := (cpu.setFlag .overflow overflow).setFlag .carry carry
  if op = .cmp then cpu else cpu.setFlag .extend carry

def setLogicFlags (cpu : Cpu) (result : UInt32) (size : Size) : Cpu :=
  let r := result &&& size.mask
  let cpu := cpu.setFlag .negative (r &&& size.msb != 0)
  let cpu := cpu.setFlag .zero (r == 0)
  (cpu.setFlag .overflow false).setFlag .carry false

end Cpu

namespace Condition

def names : Vector String 16 :=
  #v["t", "f", "hi", "ls", "cc", "cs", "ne", "eq", "vc", "vs", "pl", "mi", "ge", "lt", "gt", "le"]

def name (cond : UInt16) : String := names.get ⟨cond.toNat % 16, Nat.mod_lt _ (by decide)⟩

def holds (cond sr : UInt16) : Bool :=
  let c := Flag.carry.isSet sr
  let v := Flag.overflow.isSet sr
  let z := Flag.zero.isSet sr
  let n := Flag.negative.isSet sr
  match (cond &&& 0xF).toNat with
  | 0 => true
  | 1 => false
  | 2 => !c && !z
  | 3 => c || z
  | 4 => !c
  | 5 => c
  | 6 => !z
  | 7 => z
  | 8 => !v
  | 9 => v
  | 10 => !n
  | 11 => n
  | 12 => n == v
  | 13 => n != v
  | 14 => !z && n == v
  | _ => z || n != v

end Condition

end ColdFire
