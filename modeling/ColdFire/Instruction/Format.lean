import ColdFire.Instruction.Basic

namespace ColdFire

inductive QuickData where
  /-- From 1 to 8; a field of zero stands for 8. -/
  | oneToEight
  /-- From 1 to 7, and −1, for which a field of zero stands. -/
  | minusOne
deriving DecidableEq

namespace QuickData

def ofField (q : QuickData) (field : UInt16) : UInt32 :=
  match q with
  | oneToEight => if field = 0 then 8 else field.toUInt32
  | minusOne => if field = 0 then 0xFFFFFFFF else field.toUInt32

def toField? (q : QuickData) (value : UInt32) : Option UInt16 :=
  if 1 ≤ value ∧ value ≤ 7 then some value.toUInt16
  else match q with
    | oneToEight => if value = 8 then some 0 else none
    | minusOne => if value = 0xFFFFFFFF then some 0 else none

def rangeError (q : QuickData) (mnemonic : String) (value : UInt32) : EncodeError :=
  match q with
  | oneToEight => .outOfRange mnemonic (value.toNat : Int) "quick data must be 1..8"
  | minusOne => .outOfRange mnemonic value.toInt32.toInt "mov3q data must be -1 or 1..7"

end QuickData

inductive Format where
  /-- To a data register, which stands in bits 11 to 9: `<ea>,Dn`. -/
  | eaToData (size : Size)
  /-- From a data register, which stands in bits 11 to 9: `Dn,<ea>`. -/
  | dataToEa
  /-- To an address register, which stands in bits 11 to 9: `<ea>,An`. -/
  | eaToAddr (size : Size)
  /-- Data in extension words to a data register: `#imm,Dn`. -/
  | immToData (size : Size)
  /-- Three bits of data: `#data,<ea>`. -/
  | quick (data : QuickData)
  /-- Two data registers: `Dy,Dx`. -/
  | dataPair
  /-- A data register alone, at a fixed size: `Dn`. -/
  | dataReg (size : Size)
  /-- One operand, its size in bits 7 and 6, as the destination or as the source: `<ea>`. -/
  | sizedEa (isDst : Bool)
  /-- A count and the register that is shifted: `#1..8,Dn` or `Dm,Dn`. -/
  | shift
  /-- A bit number in a register: `Dn,<ea>`. -/
  | bitInReg
  /-- A bit number in a word in front of the operand's own words: `#n,<ea>`. -/
  | bitInWord
  /-- A product, its register and signedness in an extension word: `<ea>,Dn`. -/
  | mulLong
  /-- A quotient or a remainder, its registers and signedness in an extension word: `<ea>,Dn` or
  `<ea>,Dw:Dx`. -/
  | divLong
  /-- Two operands, `<ea>,<ea>`; `immToDisp` is the one pair beyond the rule for pairs. -/
  | move (size : Size) (immToDisp : Bool)
  /-- Eight signed bits of data to a data register: `#imm,Dn`. -/
  | moveq
  /-- From a byte or a word to all of a data register: `<ea>,Dn`. -/
  | moveExtend
  /-- A register list as the source: `list,<ea>`. -/
  | listToEa
  /-- A register list as the destination: `<ea>,list`. -/
  | eaToList
  /-- An address to an address register: `<ea>,An`. -/
  | lea
  /-- An address alone: `<ea>`. -/
  | pea
  /-- A frame pointer and a displacement: `An,#d16`. -/
  | link
  /-- A frame pointer alone: `An`. -/
  | unlk
  /-- A displacement of a byte in the opcode, or of a word behind it. -/
  | branch
  /-- A displacement of a long. -/
  | longBranch
  /-- No operand, or a word or a long to skip. -/
  | tpf
  /-- A target: `<ea>`. -/
  | jump
  | bare
  /-- Data in a word behind the opcode: `#imm`. -/
  | immWord
  /-- A vector in the opcode: `#0..15`. -/
  | vector
  /-- To a status register: `<ea>,sr` or `<ea>,ccr`. -/
  | toSpecial (reg : SpecialReg)
  /-- From a status register: `sr,Dn` or `ccr,Dn`. -/
  | fromSpecial (reg : SpecialReg)
  /-- To the stack pointer of user mode: `An,usp`. -/
  | toUsp
  /-- From the stack pointer of user mode: `usp,An`. -/
  | fromUsp
  /-- To a control register: `Rn,Rc`. -/
  | control
  /-- A cache and an address: `dc,(An)`. -/
  | cachePush
  /-- An address alone, in an address register: `(An)`. -/
  | cacheTouch
  /-- Data in the second of two words, the first of which is fixed: `#imm`. -/
  | loadStatus
deriving DecidableEq

/-- The second word of STRLDSR, which would load the status register by itself. -/
def Format.statusWord : UInt16 := 0x46FC

/-- The size at which a bit operation works on an operand: all of a data register, else a byte. -/
def Ea.bitSize : Ea → Size
  | .dataReg _ => .long
  | _ => .byte

/-- Whether a displacement can be encoded at a size. Zero never can, and −1 as a byte would look
like the mark of the long form. -/
def Format.offsetFits (offset : Int32) (size : Size) : Bool :=
  offset != 0 &&
    match size with
    | .byte => offset != -1 && -128 ≤ offset && offset ≤ 127
    | .word => -0x8000 ≤ offset && offset ≤ 0x7FFF
    | .long => true

def Format.branches (f : Format) (offset : Int32) (size : Option Size) : Bool :=
  match f, size with
  | branch, some .long => false
  | branch, some s => offsetFits offset s
  | branch, none => offsetFits offset .byte || offsetFits offset .word
  | longBranch, none | longBranch, some .long => offsetFits offset .long
  | _, _ => false

/-- What a format asks of an opcode word beyond its fixed bits and modes. -/
def Format.accepts (f : Format) (word : UInt16) : Bool :=
  match f with
  | move size immToDisp =>
    match Modes.ofField? (Field.eaMode.get word) (Field.eaReg.get word),
        Modes.ofField? (Field.moveMode.get word) (Field.moveReg.get word) with
    | some src, some dst =>
      if immToDisp then src = .imm ∧ dst = .disp
      else !(size = .byte ∧ src = .an) && Modes.movePair src dst
    | _, _ => false
  | _ => true

end ColdFire
