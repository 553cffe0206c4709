import ColdFire.Instruction.Basic

namespace ColdFire.Decoded

/-- An operand; a branch displacement is shown as the address that it leads to. -/
def operandText (d : Decoded) (ea : Ea) : String :=
  match ea with
  | .relative off => Text.hex 1 (d.address + 2 + off.toUInt32).toNat
  | _ => ea.text

def text (d : Decoded) : String :=
  let size := match d.size with
    | some s => "." ++ s.letter.toString
    | none => ""
  let operands := ([d.src, d.dst].filterMap id).map d.operandText
  let tail := if operands.isEmpty then "" else " " ++ ",".intercalate operands
  d.mnemonic ++ size ++ tail

end ColdFire.Decoded
