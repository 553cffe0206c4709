import ColdFire.Assembly.SyntaxError
import ColdFire.Instruction.EncodeError

namespace ColdFire

inductive AssemblyError where
  | badSyntax (line : Nat) (flaw : Assembly.SyntaxError)
  | encode (line : Nat) (cause : EncodeError)
  | undefined (line : Nat) (symbol : String)
  | duplicate (line : Nat) (symbol : String)
deriving DecidableEq

namespace AssemblyError

def line : AssemblyError → Nat
  | badSyntax line _ => line
  | encode line _ => line
  | undefined line _ => line
  | duplicate line _ => line

def message : AssemblyError → String
  | badSyntax line flaw => s!"line {line}: {flaw.message}"
  | encode line cause => s!"line {line}: {cause.message}"
  | undefined line symbol => s!"line {line}: undefined symbol `{symbol}`"
  | duplicate line symbol => s!"line {line}: symbol `{symbol}` defined twice"

end AssemblyError

end ColdFire
