import ColdFire.Assembly.Operand
import ColdFire.Assembly.Scope
import ColdFire.Registry

namespace ColdFire

structure Assembler where
  registry : Registry
  tier : Tier

def Registry.isBranch (r : Registry) (name : String) : Bool :=
  (r.named name).any fun e => e.1.opcode &&& 0xF000 == 0x6000

namespace Assembler

open Assembly

def fitsShort (v : Int64) : Bool :=
  (-0x8000 ≤ v && v ≤ 0x7FFF) || (0xFFFF8000 ≤ v && v ≤ 0xFFFFFFFF)

/-- The distance from the word behind the opcode word at `pc`. -/
def distance (pc : UInt32) (target : Int64) : Int64 := target - (widen pc + 2)

/-- An expression alone, as the target of a branch. It counts from the word behind the opcode. -/
def lowerTarget (scope : Scope) (pc : UInt32) (e : Expression) :
    Except AssemblyError (Ea × Bool) := do
  let v ← scope.eval e
  return (.relative (if v.known then (distance pc v.value).toInt32 else 2), v.known)

/-- An expression alone, as an address. One with a symbol takes the long form whatever its value, so
that no label changes the size of an instruction. -/
def lowerAddress (scope : Scope) (e : Expression) : Except AssemblyError (Ea × Bool) := do
  let v ← scope.eval e
  if e.symbol.isNone && fitsShort v.value then return (.absShort v.value.toInt16, v.known)
  else return (.absLong v.long, v.known)

/-- A displacement from the program counter: with a symbol the expression names the address to
reach, otherwise it is the displacement itself. -/
def displacement (scope : Scope) (pc : UInt32) (e : Expression) : Except AssemblyError Value := do
  let v ← scope.eval e
  return if e.symbol.isSome && v.known then { v with value := distance pc v.value } else v

/-- An operand of an instruction at `pc`, and whether its value was known. -/
def lower (a : Assembler) (scope : Scope) (mnemonic : String) (pc : UInt32) :
    Operand → Except AssemblyError (Ea × Bool)
  | .dataReg n =>
    .ok (if mnemonic = "movem" then .regList (1 <<< n.toUInt16) else .dataReg n, true)
  | .addrReg n =>
    .ok (if mnemonic = "movem" then .regList (1 <<< (8 + n.toUInt16)) else .addrReg n, true)
  | .indirect n => .ok (.indirect n, true)
  | .postInc n => .ok (.postInc n, true)
  | .preDec n => .ok (.preDec n, true)
  | .disp e reg => do
    let v ← scope.evalWithin e (-0x8000) 0x7FFF "displacement"
    return (.disp reg v.value.toInt16, v.known)
  | .index e reg ix => do
    let v ← scope.evalWithin e (-0x80) 0x7F "index displacement"
    return (.index reg v.value.toInt8 ix, v.known)
  | .absShort e => do
    let v ← scope.eval e
    if fitsShort v.value then return (.absShort v.value.toInt16, v.known)
    else throw (scope.flawed (.notShortAddress v.value))
  | .absLong e => do
    let v ← scope.eval e
    return (.absLong v.long, v.known)
  | .bare e => if a.registry.isBranch mnemonic then lowerTarget scope pc e else lowerAddress scope e
  | .pcDisp e => do
    let v ← displacement scope pc e
    if -0x8000 ≤ v.value ∧ v.value ≤ 0x7FFF then return (.pcDisp v.value.toInt16, v.known)
    else throw (scope.flawed (.pcOutOfRange v.value))
  | .pcIndex e ix => do
    let v ← displacement scope pc e
    if -0x80 ≤ v.value ∧ v.value ≤ 0x7F then return (.pcIndex v.value.toInt8 ix, v.known)
    else throw (scope.flawed (.pcIndexOutOfRange v.value))
  | .immediate e => do
    let v ← scope.eval e
    if -0x80000000 ≤ v.value ∧ v.value ≤ 0xFFFFFFFF then
      return (.immediate v.long, v.known)
    else throw (scope.flawed (.wideImmediate v.value))
  | .regList mask => .ok (.regList mask, true)
  | .regPair w x => .ok (.regPair w x, true)
  | .special reg => .ok (.special reg, true)

/-- A request with one operand, as a source or as a destination, whichever some form takes. If none
does, the complaint about the source counts, unless it is that there should be none. -/
def arrangeOne (a : Assembler) (mnemonic : String) (size : Option Size) (ea : Ea) :
    Except EncodeError Operands :=
  let asSrc : Operands := ⟨size, some ea, none⟩
  let asDst : Operands := ⟨size, none, some ea⟩
  -- Only some form's plan can tell which side the operand is on.
  match a.registry.select mnemonic asSrc a.tier with
  | .ok _ => .ok asSrc
  | .error srcError =>
    match a.registry.select mnemonic asDst a.tier, srcError with
    | .ok _, _ => .ok asDst
    | .error e, .extraOperand .. => .error e
    | .error e, .missingOperand .. => .error e
    | .error _, e => .error e

def arrange (a : Assembler) (mnemonic : String) (size : Option Size) :
    List Ea → Except EncodeError Operands
  | [ea] => a.arrangeOne mnemonic size ea
  | eas => .ok ⟨size, eas[0]?, eas[1]?⟩

def request (a : Assembler) (scope : Scope) (mnemonic : String) (size : Option Size)
    (operands : List Operand) (pc : UInt32) : Except AssemblyError (Operands × Bool) := do
  if operands.length > 2 then throw (scope.flawed (.tooManyOperands mnemonic))
  let eas ← operands.mapM (a.lower scope mnemonic pc)
  match a.arrange mnemonic size (eas.map (·.1)) with
  | .ok ops => return (ops, eas.all (·.2))
  | .error e => throw (.encode scope.line e)

end Assembler

end ColdFire
