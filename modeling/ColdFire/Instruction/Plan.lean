import ColdFire.Instruction.Definition

namespace ColdFire

namespace Operands

variable (mnemonic which : String)

def require (operand : Option Ea) (modes : Modes) : Except EncodeError Ea :=
  match operand with
  | none => .error (.missingOperand mnemonic which)
  | some ea =>
    if modes.contains ea.modes && ea.modes != .none then .ok ea
    else .error (.illegalOperand mnemonic which ea "addressing mode not allowed here")

def forbid (operand : Option Ea) : Except EncodeError Unit :=
  match operand with
  | none => .ok ()
  | some ea => .error (.extraOperand mnemonic which ea)

def requireDataReg (operand : Option Ea) : Except EncodeError UInt16 := do
  match ← require mnemonic which operand .dn with
  | .dataReg r => return r.toUInt16
  | other => throw (.illegalOperand mnemonic which other "data register expected")

def requireAddrReg (operand : Option Ea) : Except EncodeError UInt16 := do
  match ← require mnemonic which operand .an with
  | .addrReg r => return r.toUInt16
  | other => throw (.illegalOperand mnemonic which other "address register expected")

def requireImmediate (operand : Option Ea) : Except EncodeError UInt32 := do
  match ← require mnemonic which operand .imm with
  | .immediate v => return v
  | other => throw (.illegalOperand mnemonic which other "immediate expected")

def requireIndirect (operand : Option Ea) : Except EncodeError UInt16 := do
  match ← require mnemonic which operand .ind with
  | .indirect r => return r.toUInt16
  | other => throw (.illegalOperand mnemonic which other "(An) expected")

def requireSpecial (operand : Option Ea) (reg : SpecialReg) (missing detail : String) :
    Except EncodeError Unit :=
  match operand with
  | none => .error (.missingOperand mnemonic missing)
  | some ea =>
    if ea = .special reg then .ok () else .error (.illegalOperand mnemonic which ea detail)

def requireList (operand : Option Ea) : Except EncodeError UInt16 :=
  match operand with
  | some (.regList mask) => .ok mask
  | some other => .error (.illegalOperand mnemonic "register list" other "register list expected")
  | none => .error (.missingOperand mnemonic "register list")

def requireControl (operand : Option Ea) : Except EncodeError UInt16 :=
  match operand with
  | some ea =>
    match ea with
    | .special (.control code) => if code ≤ 0xFFF then .ok code else refuse ea
    | _ => refuse ea
  | none => .error (.missingOperand mnemonic "destination")
where
  refuse (ea : Ea) := .error (.illegalOperand mnemonic "destination" ea "control register expected")

def requireCache (operand : Option Ea) : Except EncodeError UInt16 :=
  match operand with
  | some ea =>
    match ea with
    | .special (.cache c) => if 1 ≤ c ∧ c ≤ 3 then .ok c.toUInt16 else refuse ea
    | _ => refuse ea
  | none => .error (.missingOperand mnemonic "cache")
where
  refuse (ea : Ea) := .error (.illegalOperand mnemonic "cache" ea "dc, ic or bc expected")

/-- The register that takes a remainder and the one that holds the dividend; they differ. -/
def requirePair (operand : Option Ea) : Except EncodeError (UInt16 × UInt16) :=
  match operand with
  | some ea =>
    match ea with
    | .regPair r q => if r ≠ q then .ok (r.toUInt16, q.toUInt16) else refuse ea
    | _ => refuse ea
  | none => .error (.missingOperand mnemonic "destination")
where
  refuse (ea : Ea) := .error (.illegalOperand mnemonic "destination" ea
    "remainder form needs Dw:Dx with Dw != Dx")

def requireTarget (ops : Operands) : Except EncodeError Int32 := do
  forbid mnemonic "destination" ops.dst
  match ops.src with
  | some (.relative off) => return off
  | some other => throw (.illegalOperand mnemonic "target" other "branch target expected")
  | none => throw (.missingOperand mnemonic "target")

def refuseByteOfAddr (size : Size) (ea : Ea) : Except EncodeError Unit :=
  if size = .byte ∧ ea.modes = .an then
    .error (.illegalOperand mnemonic which ea "byte access to an address register")
  else .ok ()

def checkBitSize (size : Option Size) (dst : Ea) : Except EncodeError Unit :=
  match size with
  | some s => if s = dst.bitSize then .ok () else .error (.badSize mnemonic s)
  | none => .ok ()

end Operands

/-- The operand field; zero for operands that have none. -/
def Ea.lowField (ea : Ea) : UInt16 := ea.lowField?.getD 0

namespace Definition

def pickSize (d : Definition) (requested : Option Size) : Except EncodeError Size :=
  match requested with
  | some s => if s ∈ d.sizes then .ok s else .error (.badSize d.mnemonic s)
  | none =>
    match d.defaultSize with
    | some s => .ok s
    | none => .error (.sizeRequired d.mnemonic)

open Operands

/-- Plans the words for `ops` under `name`, which is the mnemonic or an alias, in any case. -/
def plan (d : Definition) (name : String) (ops : Operands) : Except EncodeError Encoding := do
  let m := d.mnemonic
  let withHigh (reg : UInt16) : UInt16 := Field.highReg.set d.opcode reg
  let withLow (reg : UInt16) : UInt16 := Field.lowReg.set d.opcode reg
  match d.format with
  | .eaToData _ =>
    let size ← d.pickSize ops.size
    let src ← require m "source" ops.src d.srcModes
    refuseByteOfAddr m "source" size src
    let reg ← requireDataReg m "destination" ops.dst
    return ⟨withHigh reg ||| src.lowField, [.ea src size]⟩
  | .dataToEa =>
    let size ← d.pickSize ops.size
    let reg ← requireDataReg m "source" ops.src
    let dst ← require m "destination" ops.dst d.dstModes
    return ⟨withHigh reg ||| dst.lowField, [.ea dst size]⟩
  | .eaToAddr _ =>
    let size ← d.pickSize ops.size
    let src ← require m "source" ops.src d.srcModes
    let reg ← requireAddrReg m "destination" ops.dst
    return ⟨withHigh reg ||| src.lowField, [.ea src size]⟩
  | .immToData _ =>
    let size ← d.pickSize ops.size
    let value ← requireImmediate m "source" ops.src
    let reg ← requireDataReg m "destination" ops.dst
    return ⟨withLow reg, [.ea (.immediate value) size]⟩
  | .quick data =>
    let size ← d.pickSize ops.size
    let value ← requireImmediate m "source" ops.src
    match data.toField? value with
    | none => throw (data.rangeError m value)
    | some field =>
      let dst ← require m "destination" ops.dst d.dstModes
      return ⟨Field.quickData.set d.opcode field ||| dst.lowField, [.ea dst size]⟩
  | .dataPair =>
    let _ ← d.pickSize ops.size
    let src ← requireDataReg m "source" ops.src
    let dst ← requireDataReg m "destination" ops.dst
    return ⟨Field.lowReg.set (withHigh dst) src, []⟩
  | .dataReg _ =>
    let _ ← d.pickSize ops.size
    forbid m "source" ops.src
    let reg ← requireDataReg m "destination" ops.dst
    return ⟨withLow reg, []⟩
  | .sizedEa isDst =>
    let size ← d.pickSize ops.size
    let (which, operand, modes) ←
      if isDst then do
        forbid m "source" ops.src
        pure ("destination", ops.dst, d.dstModes)
      else do
        forbid m "destination" ops.dst
        pure ("source", ops.src, d.srcModes)
    let ea ← require m which operand modes
    refuseByteOfAddr m which size ea
    return ⟨Field.size.set d.opcode size.toBits ||| ea.lowField, [.ea ea size]⟩
  | .shift =>
    let _ ← d.pickSize ops.size
    let reg ← requireDataReg m "destination" ops.dst
    match ops.src with
    | some (.dataReg r) =>
      return ⟨Field.shiftCount.set (Field.shiftInReg.set (withLow reg) 1) r.toUInt16, []⟩
    | some (.immediate n) =>
      match QuickData.oneToEight.toField? n with
      | some field => return ⟨Field.shiftCount.set (Field.shiftInReg.set (withLow reg) 0) field, []⟩
      | none => throw (.outOfRange m (n.toNat : Int) "immediate shift count must be 1..8")
    | some other =>
      throw (.illegalOperand m "source" other "count must be #1..8 or a data register")
    | none => throw (.missingOperand m "source")
  | .bitInReg =>
    let reg ← requireDataReg m "source" ops.src
    let dst ← require m "destination" ops.dst d.dstModes
    checkBitSize m ops.size dst
    return ⟨withHigh reg ||| dst.lowField, [.ea dst .byte]⟩
  | .bitInWord =>
    let bit ← requireImmediate m "source" ops.src
    if bit > 0xFF then throw (.outOfRange m (bit.toNat : Int) "bit number must fit in a byte")
    let dst ← require m "destination" ops.dst d.dstModes
    checkBitSize m ops.size dst
    return ⟨d.opcode ||| dst.lowField, [.word bit.toUInt16, .ea dst .byte]⟩
  | .mulLong =>
    let _ ← d.pickSize ops.size
    -- The alias asks for the signed product.
    let signed := Text.lower name.toList == "muls".toList
    let src ← require m "source" ops.src d.srcModes
    let reg ← requireDataReg m "destination" ops.dst
    let ext := Field.signed.set (Field.quotientReg.set 0 reg) signed.toUInt16
    return ⟨d.opcode ||| src.lowField, [.word ext, .ea src .long]⟩
  -- One definition serves four names: the ending tells signedness, the beginning what is kept.
  | .divLong =>
    let _ ← d.pickSize ops.size
    let lowered := Text.lower name.toList
    let signed := "s".toList.isSuffixOf lowered
    let src ← require m "source" ops.src d.srcModes
    let (remainder, quotient) ←
      if "rem".toList.isPrefixOf lowered then requirePair m ops.dst
      else do
        let q ← requireDataReg m "destination" ops.dst
        pure (q, q)
    let ext := Field.signed.set
      (Field.remainderReg.set (Field.quotientReg.set 0 quotient) remainder) signed.toUInt16
    return ⟨d.opcode ||| src.lowField, [.word ext, .ea src .long]⟩
  | .move _ immToDisp =>
    let size ← d.pickSize ops.size
    let src ← require m "source" ops.src d.srcModes
    let dst ← require m "destination" ops.dst d.dstModes
    refuseByteOfAddr m "source" size src
    if !immToDisp && !Modes.movePair src.modes dst.modes then
      throw (.illegalOperand m "destination" dst
        "combination with this source needs too many extension words")
    -- All modes that pass have a field.
    let (srcMode, srcReg) := src.field?.getD (0, 0)
    let (dstMode, dstReg) := dst.field?.getD (0, 0)
    let op := Field.eaReg.set (Field.eaMode.set d.opcode srcMode) srcReg
    return ⟨Field.moveReg.set (Field.moveMode.set op dstMode) dstReg, [.ea src size, .ea dst size]⟩
  | .moveq =>
    let _ ← d.pickSize ops.size
    let value ← requireImmediate m "source" ops.src
    if value.toInt32 < -128 ∨ 127 < value.toInt32 then
      throw (.outOfRange m value.toInt32.toInt "moveq data must be -128..127")
    let reg ← requireDataReg m "destination" ops.dst
    return ⟨Field.byteData.set (withHigh reg) value.toUInt8.toUInt16, []⟩
  | .moveExtend =>
    let size ← d.pickSize ops.size
    let src ← require m "source" ops.src d.srcModes
    let reg ← requireDataReg m "destination" ops.dst
    let sizeBit : UInt16 := if size = .word then 0x0040 else 0
    return ⟨withHigh reg ||| sizeBit ||| src.lowField, [.ea src size]⟩
  | .listToEa =>
    let _ ← d.pickSize ops.size
    let dst ← require m "destination" ops.dst d.dstModes
    let mask ← requireList m ops.src
    return ⟨d.opcode ||| dst.lowField, [.word mask, .ea dst .long]⟩
  | .eaToList =>
    let _ ← d.pickSize ops.size
    let src ← require m "source" ops.src d.srcModes
    let mask ← requireList m ops.dst
    return ⟨d.opcode ||| src.lowField, [.word mask, .ea src .long]⟩
  | .lea =>
    let src ← require m "source" ops.src d.srcModes
    let reg ← requireAddrReg m "destination" ops.dst
    return ⟨Field.highReg.set (d.opcode ||| src.lowField) reg, [.ea src .long]⟩
  | .pea =>
    let src ← require m "source" ops.src d.srcModes
    forbid m "destination" ops.dst
    return ⟨d.opcode ||| src.lowField, [.ea src .long]⟩
  | .link =>
    let _ ← d.pickSize ops.size
    let reg ← requireAddrReg m "source" ops.src
    let value ← requireImmediate m "displacement" ops.dst
    -- Signed and unsigned spellings of 16 bits are both taken.
    if value.toInt32 < -0x8000 ∨ 0xFFFF < value.toInt32 then
      throw (.outOfRange m value.toInt32.toInt "displacement must fit in 16 bits")
    return ⟨withLow reg, [.word value.toUInt16]⟩
  | .unlk =>
    forbid m "source" ops.src
    let reg ← requireAddrReg m "register" ops.dst
    return ⟨withLow reg, []⟩
  | .branch =>
    let off ← ops.requireTarget m
    let size ← match ops.size with
      | some .long => throw (.badSize m .long)
      | some s => pure s
      | none => pure (if Format.offsetFits off .byte then Size.byte else Size.word)
    if !Format.offsetFits off size then
      throw (.outOfRange m off.toInt s!"does not fit a .{size.letter} displacement")
    -- A byte displacement stands in the opcode word, a word behind it.
    if size = .byte then return ⟨Field.branchDisp.set d.opcode off.toInt8.toUInt8.toUInt16, []⟩
    else return ⟨d.opcode, [.word off.toInt16.toUInt16]⟩
  | .longBranch =>
    let off ← ops.requireTarget m
    match ops.size with
    | none | some .long =>
      if !Format.offsetFits off .long then throw (.outOfRange m off.toInt "zero displacement")
      return ⟨d.opcode, [.long off.toUInt32]⟩
    | some s => throw (.badSize m s)
  | .tpf =>
    forbid m "destination" ops.dst
    match ops.size with
    | none =>
      forbid m "source" ops.src
      return ⟨withLow 4, []⟩
    | some .word =>
      let value ← requireImmediate m "source" ops.src
      return ⟨withLow 2, [.word value.toUInt16]⟩
    | some .long =>
      let value ← requireImmediate m "source" ops.src
      return ⟨withLow 3, [.long value]⟩
    | some .byte => throw (.badSize m .byte)
  | .jump =>
    let target ← require m "target" ops.src d.srcModes
    forbid m "destination" ops.dst
    return ⟨d.opcode ||| target.lowField, [.ea target .long]⟩
  | .bare =>
    forbid m "source" ops.src
    forbid m "destination" ops.dst
    return ⟨d.opcode, []⟩
  | .immWord =>
    let value ← requireImmediate m "source" ops.src
    forbid m "destination" ops.dst
    return ⟨d.opcode, [.word value.toUInt16]⟩
  | .vector =>
    let n ← requireImmediate m "vector" ops.src
    forbid m "destination" ops.dst
    if n > 15 then throw (.outOfRange m (n.toNat : Int) "trap vector must be 0..15")
    return ⟨Field.vector.set d.opcode n.toUInt16, []⟩
  | .toSpecial reg =>
    let _ ← d.pickSize ops.size
    requireSpecial m "destination" ops.dst reg "destination" "status register expected"
    let src ← require m "source" ops.src d.srcModes
    return ⟨d.opcode ||| src.lowField, [.ea src .word]⟩
  | .fromSpecial reg =>
    let _ ← d.pickSize ops.size
    requireSpecial m "source" ops.src reg "source" "status register expected"
    let reg ← requireDataReg m "destination" ops.dst
    return ⟨withLow reg, []⟩
  | .toUsp =>
    let _ ← d.pickSize ops.size
    requireSpecial m "operand" ops.dst .usp "usp" "usp expected"
    let reg ← requireAddrReg m "source" ops.src
    return ⟨withLow reg, []⟩
  | .fromUsp =>
    let _ ← d.pickSize ops.size
    requireSpecial m "operand" ops.src .usp "usp" "usp expected"
    let reg ← requireAddrReg m "destination" ops.dst
    return ⟨withLow reg, []⟩
  | .control =>
    let _ ← d.pickSize ops.size
    let src ← require m "source" ops.src (.dn ∪ .an)
    let code ← requireControl m ops.dst
    let (bank, reg) : UInt16 × UInt8 := match src with
      | .addrReg r => (1, r)
      | .dataReg r => (0, r)
      | _ => (0, 0)
    let ext := Field.controlReg.set (Field.controlBank.set 0 bank) reg.toUInt16
    return ⟨d.opcode, [.word (Field.controlCode.set ext code)]⟩
  | .cachePush =>
    let selector ← requireCache m ops.src
    let reg ← requireIndirect m "destination" ops.dst
    return ⟨Field.lowReg.set (Field.cache.set d.opcode selector) reg, []⟩
  | .cacheTouch =>
    forbid m "source" ops.src
    let reg ← requireIndirect m "destination" ops.dst
    return ⟨withLow reg, []⟩
  | .loadStatus =>
    let value ← requireImmediate m "source" ops.src
    forbid m "destination" ops.dst
    return ⟨d.opcode, [.word Format.statusWord, .word value.toUInt16]⟩

end Definition

end ColdFire
