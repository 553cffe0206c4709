import ColdFire.Cpu.Exception
import ColdFire.Operand.Text
import ColdFire.Tier

namespace ColdFire

/-- The catalogue and its own decoders disagree. -/
inductive LogicError where
  | undecodable (opcode : UInt16) (detail : String)
  | missingOperand (mnemonic which : String)
  | notAddressable (ea : Ea)
  | ambiguous (opcode : UInt16) (tier : Tier) (first second : String)
deriving DecidableEq

def LogicError.message : LogicError → String
  | undecodable opcode detail =>
    s!"opcode {Text.hex 4 opcode.toNat} matched a definition that cannot decode it: {detail}"
  | missingOperand mnemonic which => s!"{mnemonic}: decoded form has no {which} operand"
  | notAddressable ea => s!"operand {ea.describe} does not name a location"
  | ambiguous opcode tier first second =>
    s!"opcode {Text.hex 4 opcode.toNat} on {tier.name} matches both {first} and {second}"

inductive ReservedCause where
  | fullExtension
  | byteImmediate
  | bitNumber
  | longProduct
  | multiplyBits
  | longDividend
  | divideBits
  | statusWord
deriving DecidableEq

def ReservedCause.message : ReservedCause → String
  | fullExtension => "full-format extension word"
  | byteImmediate => "byte immediate with a nonzero high byte"
  | bitNumber => "bit number with a nonzero high byte"
  | longProduct => "64-bit product form"
  | multiplyBits => "nonzero reserved bits in the multiply extension word"
  | longDividend => "64-bit dividend form"
  | divideBits => "nonzero reserved bits in the divide extension word"
  | statusWord => "strldsr without its move-to-sr word"

/-- A failure outside the simulated machine. -/
inductive Trap where
  | bus (addr : UInt32) (cause : String)
  | logic (error : LogicError)
  | reserved (opcode : UInt16) (addr : UInt32) (cause : ReservedCause)
  | unsimulated (mnemonic : String) (pc : UInt32)
deriving DecidableEq

def Trap.message : Trap → String
  | bus addr cause => s!"Bus error at {Text.hex 8 addr.toNat}: {cause}"
  | logic e => e.message
  | reserved opcode addr cause =>
    s!"{Text.hex 4 opcode.toNat} at {Text.hex 8 addr.toNat}: reserved encoding ({cause.message})"
  | unsimulated mnemonic pc =>
    s!"{mnemonic} at {Text.hex 8 pc.toNat} is recognized but not simulated"

inductive Fault where
  | exception (e : Exception)
  | trap (t : Trap)
deriving DecidableEq

def Fault.message : Fault → String
  | exception e => s!"CPU exception: {e.text}"
  | trap t => t.message

end ColdFire
