namespace ColdFire

inductive Exception where
  | accessError
  | addressError
  | illegalInstruction
  | divideByZero
  | privilegeViolation
  | trace
  | lineA
  | lineF
  | formatError
  /-- Raised by `TRAP #0` to `TRAP #15`. -/
  | trap (n : UInt8)
deriving DecidableEq, Inhabited

namespace Exception

def vector : Exception → UInt32
  | accessError => 2
  | addressError => 3
  | illegalInstruction => 4
  | divideByZero => 5
  | privilegeViolation => 8
  | trace => 9
  | lineA => 10
  | lineF => 11
  | formatError => 14
  | trap n => 32 + (n.toUInt32 &&& 0xF)

/-- A trap returns behind its instruction; everything else returns to it. -/
def stacksNextPc : Exception → Bool
  | trap _ => true
  | _ => false

def text : Exception → String
  | accessError => "AccessError"
  | addressError => "AddressError"
  | illegalInstruction => "IllegalInstruction"
  | divideByZero => "DivideByZero"
  | privilegeViolation => "PrivilegeViolation"
  | trace => "Trace"
  | lineA => "LineA"
  | lineF => "LineF"
  | formatError => "FormatError"
  | trap n => s!"Trap({n})"

/-- The first long of a frame: format and misalignment, vector, status register. -/
def frameWord (misalign vector : UInt32) (sr : UInt16) : UInt32 :=
  ((4 ||| (misalign &&& 3)) <<< 28) ||| ((vector &&& 0xFF) <<< 18) ||| sr.toUInt32

end Exception

end ColdFire
