import ColdFire.Instruction.Definition

namespace ColdFire

namespace Format

def operandMask : Format → UInt16
  | eaToData _ | dataToEa | eaToAddr _ | quick _ | bitInReg | lea => 0x0E3F
  | immToData _ | dataReg _ | link | unlk | tpf | fromSpecial _ | toUsp | fromUsp
  | cacheTouch => 0x0007
  | bitInWord | mulLong | divLong | listToEa | eaToList | pea | jump | toSpecial _ => 0x003F
  | dataPair => 0x0E07
  | sizedEa _ | branch => 0x00FF
  | shift => 0x0E27
  | move .. => 0x0FFF
  | moveq => 0x0EFF
  | moveExtend => 0x0E7F
  | vector => 0x000F
  | cachePush => 0x00C7
  | longBranch | bare | immWord | control | loadStatus => 0

/-- The sizes that a request may name; a format without any ignores the size. -/
def sizes : Format → List Size
  | eaToData s | eaToAddr s | immToData s | dataReg s | move s _ => [s]
  | dataToEa | quick _ | dataPair | shift | mulLong | divLong | moveq | listToEa | eaToList
  | longBranch | toUsp | fromUsp | control => [.long]
  | sizedEa _ => [.byte, .word, .long]
  | bitInReg | bitInWord => [.byte, .long]
  | moveExtend | branch => [.byte, .word]
  | tpf => [.word, .long]
  | link | toSpecial _ | fromSpecial _ => [.word]
  | lea | pea | unlk | jump | bare | immWord | vector | cachePush | cacheTouch | loadStatus => []

def slot : Format → Slot
  | eaToData _ | eaToAddr _ | sizedEa false | mulLong | divLong | moveExtend | eaToList | lea | pea
  | jump | toSpecial _ => .src
  | dataToEa | immToData _ | quick _ | sizedEa true | bitInReg | bitInWord | listToEa => .dst
  | move .. => .move
  | _ => .none

/-- Mask and value of the words that are left to other definitions. -/
def exclusions : Format → List (UInt16 × UInt16)
  | sizedEa true => [(0x00C0, 0x00C0)]
  -- A byte of an address register is no operand.
  | sizedEa false => [(0x00C0, 0x00C0), (0x00F8, 0x0008)]
  | branch => [(0x00FF, 0x00FF)]
  | tpf => [(0x0007, 0), (0x0007, 1), (0x0007, 5), (0x0007, 6), (0x0007, 7)]
  | cachePush => [(0x00C0, 0)]
  | _ => []

/-- What the modes of a definition must be for its format: no byte of an address register where
nothing else excludes it, and one pair only where the rule for pairs is set aside. The register of
an immediate operation stands where an operand field would, and so it has a mode there too. -/
def modesFit (f : Format) (opcode : UInt16) (src dst : Modes) : Bool :=
  match f with
  | eaToData .byte => !src.contains .an
  | immToData _ => opcode &&& 0x0038 = 0 ∧ dst.contains .dn
  | sizedEa true => !dst.contains .an
  | move _ true => src = .imm ∧ dst = .disp
  | _ => true

end Format

namespace Definition

/-- The definition has the opcode words that its format tells of. -/
structure Regular (d : Definition) : Prop where
  operandMask : d.operandMask = d.format.operandMask
  opcode : d.opcode &&& d.format.operandMask = 0
  sizes : d.sizes = d.format.sizes
  defaultSize : d.defaultSize.all (· ∈ d.format.sizes) = true
  slot : d.slot = d.format.slot
  exclusions : d.exclusions = d.format.exclusions
  modes : d.format.modesFit d.opcode d.srcModes d.dstModes = true

instance (d : Definition) : Decidable d.Regular :=
  decidable_of_iff (d.operandMask = d.format.operandMask ∧ d.opcode &&& d.format.operandMask = 0 ∧
      d.sizes = d.format.sizes ∧ d.defaultSize.all (· ∈ d.format.sizes) = true ∧
      d.slot = d.format.slot ∧ d.exclusions = d.format.exclusions ∧
      d.format.modesFit d.opcode d.srcModes d.dstModes = true)
    ⟨fun ⟨hmask, hop, hsizes, hdefault, hslot, hex, hmodes⟩ =>
        ⟨hmask, hop, hsizes, hdefault, hslot, hex, hmodes⟩,
      fun h => ⟨h.operandMask, h.opcode, h.sizes, h.defaultSize, h.slot, h.exclusions, h.modes⟩⟩

end Definition

end ColdFire
