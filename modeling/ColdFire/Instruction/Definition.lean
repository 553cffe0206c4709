import ColdFire.Instruction.Format
import ColdFire.Instruction.Operation

namespace ColdFire

structure Definition where
  mnemonic : String
  aliases : List String := []
  opcode : UInt16
  /-- The bits that select operands. -/
  operandMask : UInt16
  tier : Tier := .a
  sizes : List Size := []
  /-- The size of a request without one. -/
  defaultSize : Option Size := if .long ∈ sizes then some .long else none
  srcModes : Modes := .none
  dstModes : Modes := .none
  slot : Slot := .none
  privileged : Bool := false
  flow : Flow := .next
  /-- Mask and value of words that belong to other definitions. -/
  exclusions : List (UInt16 × UInt16) := []
  format : Format
  operation : Operation
deriving DecidableEq

namespace Definition

/-- How many bits of the opcode word are fixed. -/
def specificity (d : Definition) : Nat :=
  (List.range 16).countP fun i => (d.operandMask >>> UInt16.ofNat i) &&& 1 == 0

def lowModeIn (modes : Modes) (word : UInt16) : Bool :=
  (Modes.ofField? (Field.eaMode.get word) (Field.eaReg.get word)).any modes.contains

def moveModeIn (modes : Modes) (word : UInt16) : Bool :=
  (Modes.ofField? (Field.moveMode.get word) (Field.moveReg.get word)).any modes.contains

/-- Whether a word has the fixed bits, none of the exclusions and operands of allowed modes. -/
def fits (d : Definition) (word : UInt16) : Bool :=
  (word &&& ~~~d.operandMask) == (d.opcode &&& ~~~d.operandMask) &&
    d.exclusions.all (fun (mask, value) => word &&& mask != value) &&
    match d.slot with
    | .none => true
    | .src => lowModeIn d.srcModes word
    | .dst => lowModeIn d.dstModes word
    | .move => lowModeIn d.srcModes word && moveModeIn d.dstModes word

def claims (d : Definition) (word : UInt16) (tier : Tier) : Bool :=
  d.tier ≤ tier && d.fits word && d.format.accepts word

def answersTo (d : Definition) (name : String) : Bool :=
  (d.mnemonic :: d.aliases).any fun known => Text.lower known.toList == Text.lower name.toList

end Definition

end ColdFire
