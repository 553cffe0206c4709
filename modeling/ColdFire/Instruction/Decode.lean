import ColdFire.Instruction.Definition

namespace ColdFire

namespace Format

/-- The name and the operands of an instruction. Multiplication and division name themselves; every
other format goes by the mnemonic of its definition. -/
def read (f : Format) (mnemonic : String) : Decoder (String × Operands) := do
  let op ← Decoder.opcode
  let lowReg := (Field.lowReg.get op).toUInt8
  let highReg := (Field.highReg.get op).toUInt8
  match f with
  | eaToData size =>
    let ea ← Ea.readLow size
    return (mnemonic, ⟨some size, some ea, some (.dataReg highReg)⟩)
  | dataToEa =>
    let ea ← Ea.readLow .long
    return (mnemonic, ⟨some .long, some (.dataReg highReg), some ea⟩)
  | eaToAddr size =>
    let ea ← Ea.readLow size
    return (mnemonic, ⟨some size, some ea, some (.addrReg highReg)⟩)
  | immToData size =>
    let imm ← Ea.readImmediate size
    return (mnemonic, ⟨some size, some imm, some (.dataReg lowReg)⟩)
  | quick data =>
    let ea ← Ea.readLow .long
    let value := data.ofField (Field.quickData.get op)
    return (mnemonic, ⟨some .long, some (.immediate value), some ea⟩)
  | dataPair => return (mnemonic, ⟨some .long, some (.dataReg lowReg), some (.dataReg highReg)⟩)
  | dataReg size => return (mnemonic, ⟨some size, none, some (.dataReg lowReg)⟩)
  | sizedEa isDst =>
    match Size.ofBits? (Field.size.get op) with
    | none => Decoder.undecodable "size 11"
    | some size =>
      let ea ← Ea.readLow size
      return (mnemonic, if isDst then ⟨some size, none, some ea⟩ else ⟨some size, some ea, none⟩)
  | shift =>
    let count := Field.shiftCount.get op
    let src :=
      if Field.shiftInReg.get op ≠ 0 then .dataReg count.toUInt8
      else .immediate (QuickData.oneToEight.ofField count)
    return (mnemonic, ⟨some .long, some src, some (.dataReg lowReg)⟩)
  | bitInReg =>
    let ea ← Ea.readLow .byte
    return (mnemonic, ⟨some ea.bitSize, some (.dataReg highReg), some ea⟩)
  | bitInWord =>
    let bit ← Decoder.nextWord
    if bit > 0xFF then Decoder.reserved .bitNumber
    else
      let ea ← Ea.readLow .byte
      return (mnemonic, ⟨some ea.bitSize, some (.immediate bit.toUInt32), some ea⟩)
  | mulLong =>
    let ext ← Decoder.nextWord
    if ext &&& 0x0400 ≠ 0 then Decoder.reserved .longProduct
    else if ext &&& ~~~0x7C00 ≠ 0 then Decoder.reserved .multiplyBits
    else
      let ea ← Ea.readLow .long
      let name := if Field.signed.get ext ≠ 0 then "muls" else "mulu"
      return (name, ⟨some .long, some ea, some (.dataReg (Field.quotientReg.get ext).toUInt8)⟩)
  | divLong =>
    let ext ← Decoder.nextWord
    if ext &&& 0x0400 ≠ 0 then Decoder.reserved .longDividend
    else if ext &&& ~~~0x7C07 ≠ 0 then Decoder.reserved .divideBits
    else
      let ea ← Ea.readLow .long
      let signed := Field.signed.get ext ≠ 0
      let quotient := (Field.quotientReg.get ext).toUInt8
      let remainder := (Field.remainderReg.get ext).toUInt8
      -- One register for both asks for the quotient alone.
      if quotient = remainder then
        return (if signed then "divs" else "divu",
          ⟨some .long, some ea, some (.dataReg quotient)⟩)
      else
        return (if signed then "rems" else "remu",
          ⟨some .long, some ea, some (.regPair remainder quotient)⟩)
  | move size _ =>
    let src ← Ea.readLow size
    let dst ← Ea.read (Field.moveMode.get op) (Field.moveReg.get op) size
    return (mnemonic, ⟨some size, some src, some dst⟩)
  | moveq =>
    let value := Size.byte.signExtend (Field.byteData.get op).toUInt32
    return (mnemonic, ⟨some .long, some (.immediate value), some (.dataReg highReg)⟩)
  | moveExtend =>
    let size := if op &&& 0x0040 ≠ 0 then Size.word else Size.byte
    let ea ← Ea.readLow size
    return (mnemonic, ⟨some size, some ea, some (.dataReg highReg)⟩)
  | listToEa =>
    let mask ← Decoder.nextWord
    let ea ← Ea.readLow .long
    return (mnemonic, ⟨some .long, some (.regList mask), some ea⟩)
  | eaToList =>
    let mask ← Decoder.nextWord
    let ea ← Ea.readLow .long
    return (mnemonic, ⟨some .long, some ea, some (.regList mask)⟩)
  | lea =>
    let ea ← Ea.readLow .long
    return (mnemonic, ⟨none, some ea, some (.addrReg highReg)⟩)
  | pea | jump =>
    let ea ← Ea.readLow .long
    return (mnemonic, ⟨none, some ea, none⟩)
  | link =>
    let displacement ← Ea.readImmediate .word
    return (mnemonic, ⟨some .word, some (.addrReg lowReg), some displacement⟩)
  | unlk => return (mnemonic, ⟨none, none, some (.addrReg lowReg)⟩)
  | branch =>
    let short := Field.branchDisp.get op
    -- A short displacement of zero says that a word follows.
    if short = 0 then
      let offset ← Decoder.nextWord
      return (mnemonic, ⟨some .word, some (.relative offset.toInt16.toInt32), none⟩)
    else
      return (mnemonic, ⟨some .byte, some (.relative short.toUInt8.toInt8.toInt32), none⟩)
  | longBranch =>
    let offset ← Decoder.nextLong
    return (mnemonic, ⟨some .long, some (.relative offset.toInt32), none⟩)
  | tpf =>
    if lowReg = 2 then
      let w ← Decoder.nextWord
      return (mnemonic, ⟨some .word, some (.immediate w.toUInt32), none⟩)
    else if lowReg = 3 then
      let v ← Decoder.nextLong
      return (mnemonic, ⟨some .long, some (.immediate v), none⟩)
    else return (mnemonic, ⟨none, none, none⟩)
  | bare => return (mnemonic, ⟨none, none, none⟩)
  | immWord =>
    let w ← Decoder.nextWord
    return (mnemonic, ⟨none, some (.immediate w.toUInt32), none⟩)
  | vector =>
    return (mnemonic, ⟨none, some (.immediate (Field.vector.get op).toUInt32), none⟩)
  | toSpecial reg =>
    let ea ← Ea.readLow .word
    return (mnemonic, ⟨some .word, some ea, some (.special reg)⟩)
  | fromSpecial reg => return (mnemonic, ⟨some .word, some (.special reg), some (.dataReg lowReg)⟩)
  | toUsp => return (mnemonic, ⟨some .long, some (.addrReg lowReg), some (.special .usp)⟩)
  | fromUsp => return (mnemonic, ⟨some .long, some (.special .usp), some (.addrReg lowReg)⟩)
  | control =>
    let ext ← Decoder.nextWord
    let reg := (Field.controlReg.get ext).toUInt8
    let src := if Field.controlBank.get ext ≠ 0 then Ea.addrReg reg else Ea.dataReg reg
    let code := Field.controlCode.get ext
    return (mnemonic, ⟨some .long, some src, some (.special (.control code))⟩)
  | cachePush =>
    let selector := (Field.cache.get op).toUInt8
    return (mnemonic, ⟨none, some (.special (.cache selector)), some (.indirect lowReg)⟩)
  | cacheTouch => return (mnemonic, ⟨none, none, some (.indirect lowReg)⟩)
  | loadStatus =>
    let first ← Decoder.nextWord
    if first ≠ statusWord then Decoder.reserved .statusWord
    else
      let status ← Decoder.nextWord
      return (mnemonic, ⟨none, some (.immediate status.toUInt32), none⟩)

end Format

def Definition.decode (d : Definition) : Decoder Decoded := fun source cursor =>
  match d.format.read d.mnemonic source cursor with
  | .ok (name, operands) after =>
    .ok { operands with
          mnemonic := name
          opcode := source.opcode
          address := source.address
          extWords := after.consumed } after
  | .error t after => .error t after

end ColdFire
