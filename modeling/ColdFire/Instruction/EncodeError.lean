import ColdFire.Operand.Text
import ColdFire.Tier

namespace ColdFire

inductive EncodeError where
  | unknownMnemonic (name : String)
  | illegalOperand (mnemonic which : String) (ea : Ea) (detail : String)
  | missingOperand (mnemonic which : String)
  | extraOperand (mnemonic which : String) (ea : Ea)
  | badSize (mnemonic : String) (size : Size)
  | sizeRequired (mnemonic : String)
  | outOfRange (mnemonic : String) (value : Int) (detail : String)
  | notInTier (mnemonic : String) (tier : Tier)
deriving DecidableEq

namespace EncodeError

def message : EncodeError → String
  | unknownMnemonic name => s!"unknown mnemonic `{name}`"
  | illegalOperand mnemonic which ea detail =>
    s!"{mnemonic}: illegal {which} operand {ea.text}: {detail}"
  | missingOperand mnemonic which => s!"{mnemonic}: missing {which} operand"
  | extraOperand mnemonic which ea => s!"{mnemonic}: unexpected {which} operand {ea.text}"
  | badSize mnemonic size => s!"{mnemonic}: size .{size.letter} is not supported"
  | sizeRequired mnemonic => s!"{mnemonic}: an explicit size suffix is required"
  | outOfRange mnemonic value detail => s!"{mnemonic}: value {value} out of range ({detail})"
  | notInTier mnemonic tier => s!"{mnemonic} is not available on {tier.name}"

/-- Whether the error is about the size alone. It says less than one about an operand. -/
def aboutSize : EncodeError → Bool
  | badSize .. | sizeRequired _ => true
  | _ => false

end EncodeError

end ColdFire
