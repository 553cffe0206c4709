import ColdFire.Instruction.EncodeError
import ColdFire.Instruction.WordSource
import ColdFire.Word.Stencil

namespace ColdFire

def IndexReg.scaleCode? (scale : UInt8) : Option UInt16 :=
  match scale with
  | 1 => some 0
  | 2 => some 1
  | 4 => some 2
  | 8 => some 3
  | _ => none

def IndexReg.briefWord? (disp : Int8) (ix : IndexReg) : Option UInt16 :=
  (scaleCode? ix.scale).map fun scale =>
    let w := Field.briefBank.set 0 ix.addr.toUInt16
    let w := Field.briefReg.set w ix.reg.toUInt16
    let w := Field.briefLong.set w ix.long.toUInt16
    let w := Field.briefScale.set w scale
    Field.briefDisp.set w disp.toUInt8.toUInt16

def IndexReg.ofBrief (w : UInt16) : IndexReg where
  addr := Field.briefBank.get w != 0
  reg := (Field.briefReg.get w).toUInt8
  long := Field.briefLong.get w != 0
  scale := 1 <<< (Field.briefScale.get w).toUInt8

namespace Ea

/-- The displacement and the index register of an indexed operand. Bit 8 would announce a longer
format that this family of processors lacks. -/
def readBrief : Decoder (Int8 × IndexReg) := do
  let w ← Decoder.nextWord
  if w &&& 0x0100 ≠ 0 then Decoder.reserved .fullExtension
  else return ((Field.briefDisp.get w).toUInt8.toInt8, IndexReg.ofBrief w)

def readImmediate (size : Size) : Decoder Ea :=
  match size with
  | .byte => do
    let w ← Decoder.nextWord
    if w > 0xFF then Decoder.reserved .byteImmediate else return immediate w.toUInt32
  | .word => do return immediate (← Decoder.nextWord).toUInt32
  | .long => do return immediate (← Decoder.nextLong)

/-- The operand that an operand field names, with the extension words that belong to it. -/
def read (mode reg : UInt16) (size : Size) : Decoder Ea :=
  let r := reg.toUInt8
  match (mode &&& 7).toNat with
  | 0 => return dataReg r
  | 1 => return addrReg r
  | 2 => return indirect r
  | 3 => return postInc r
  | 4 => return preDec r
  | 5 => do return disp r (← Decoder.nextWord).toInt16
  | 6 => do
    let (d, ix) ← readBrief
    return index r d ix
  | _ =>
    match (reg &&& 7).toNat with
    | 0 => do return absShort (← Decoder.nextWord).toInt16
    | 1 => do return absLong (← Decoder.nextLong)
    | 2 => do
      Decoder.markPcRelative
      return pcDisp (← Decoder.nextWord).toInt16
    | 3 => do
      Decoder.markPcRelative
      let (d, ix) ← readBrief
      return pcIndex d ix
    | 4 => readImmediate size
    | _ => Decoder.undecodable s!"reserved effective address 7/{reg}"

def readLow (size : Size) : Decoder Ea := do
  let op ← Decoder.opcode
  read (Field.eaMode.get op) (Field.eaReg.get op) size

def longWords (v : UInt32) : List UInt16 := [(v >>> 16).toUInt16, v.toUInt16]

def briefWords (disp : Int8) (ix : IndexReg) : Except EncodeError (List UInt16) :=
  match ix.briefWord? disp with
  | some w => .ok [w]
  | none =>
    .error (.outOfRange "<ea>" (ix.scale.toNat : Int) "index scale must be 1, 2, 4 or 8")

def words (ea : Ea) (size : Size) : Except EncodeError (List UInt16) :=
  match ea with
  | disp _ d | pcDisp d | absShort d => .ok [d.toUInt16]
  | index _ d ix | pcIndex d ix => briefWords d ix
  | absLong v => .ok (longWords v)
  | immediate v =>
    match size with
    | .byte => .ok [v.toUInt8.toUInt16]
    | .word => .ok [v.toUInt16]
    | .long => .ok (longWords v)
  | _ => .ok []

end Ea

end ColdFire
