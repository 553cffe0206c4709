import ColdFire.CommandLine.Assemble
import ColdFire.CommandLine.Disassemble
import ColdFire.CommandLine.Simulate

namespace ColdFire.CommandLine

variable {m : Type → Type} [Monad m] [Host m]

def run (name : String) (args : List String) : m UInt32 :=
  match name with
  | "cf-asm" => AssembleTool.run args
  | "cf-disasm" => DisassembleTool.run args
  | "cf-run" => SimulateTool.run args
  | _ => do
    Host.printError "usage: cf-asm|cf-disasm|cf-run ARGUMENTS\n"
    return 2

end ColdFire.CommandLine
