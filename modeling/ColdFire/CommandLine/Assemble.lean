import ColdFire.Assembly.Program
import ColdFire.CommandLine.Load

namespace ColdFire.AssembleTool

inductive OutputFormat where
  | hex
  | srec
  | bin

structure Options where
  input : String
  output : String
  format : OutputFormat
  tier : Tier
  symbols : Bool

def switches : List Switch :=
  [⟨"input", some 'i', true, false⟩, ⟨"output", some 'o', true, false⟩,
   ⟨"format", none, true, false⟩, ⟨"isa", none, true, false⟩, ⟨"symbols", none, false, false⟩]

def formats : List (String × OutputFormat) := [("hex", .hex), ("srec", .srec), ("bin", .bin)]

def usage : String :=
  "usage: cf-asm --input FILE --output FILE [--format hex|srec|bin] [--isa A|B|C] [--symbols]\n"

def Options.parse? (args : List String) : Option Options := do
  let a ← Arguments.scan switches [] args
  if !a.operands.isEmpty then none
  else
    return {
      input := ← (← a.option "input" Arguments.path?)
      output := ← (← a.option "output" Arguments.path?)
      format := ← a.optionOr "format" (Arguments.oneOf formats) .srec
      tier := ← a.optionOr "isa" Tier.parse? .c
      symbols := a.flag "symbols" }

/-- The bytes from the lowest mapped address to the highest, with zeros in the gaps. -/
def flatBytes (img : Image) : Option (List UInt8) :=
  img.bounds?.map fun (low, limit) =>
    (List.range (limit - low.toNat)).map fun i => (img.get? (low + UInt32.ofNat i)).getD 0

def output (o : Options) (img : Image) : Except Failure (List UInt8) :=
  match o.format with
  | .hex => .ok (Text.utf8Bytes (IntelHex.save img))
  | .srec =>
    let header := ((FileFormat.fileName? o.input).map String.ofList).getD "cf-asm"
    .ok (Text.utf8Bytes (SRecord.save img header))
  | .bin =>
    match flatBytes img with
    | some bytes => .ok bytes
    | none => .error ⟨"nothing to write: program is empty", []⟩

def symbolLine (name : String) (addr : UInt32) : String :=
  s!"{Text.hex 8 addr.toNat} {name}\n"

variable {m : Type → Type} [Monad m] [Host m]

def tool (o : Options) : Tool m Unit := do
  let source ← Tool.doing s!"reading {o.input}" (Tool.readText o.input)
  let assembler : Assembler := ⟨Registry.full, o.tier⟩
  let program ← Tool.doing s!"assembling {o.input}"
    (Tool.orFail Failure.ofAssembly (assembler.assemble source))
  Tool.writeFile o.output (← Tool.orFail id (output o program.image))
  if o.symbols then
    Tool.print (String.join (program.symbols.toList.map fun (name, addr) => symbolLine name addr))

def run (args : List String) : m UInt32 := Tool.exitCode usage tool (Options.parse? args)

end ColdFire.AssembleTool
