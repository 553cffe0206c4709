import ColdFire.CommandLine.Load
import ColdFire.CommandLine.Records
import ColdFire.Execution.Step
import ColdFire.Memory.Linear

namespace ColdFire.SimulateTool

structure Options where
  source : Source
  entry : Option UInt32
  /-- Whether stack pointer and program counter come from the vector table. -/
  vectors : Bool
  config : Option String
  tier : Option Tier
  sp : Option UInt32
  maxSteps : Nat
  dump : Bool

def usage : String :=
  "usage: cf-run FILE [--format intel-hex|s-record|raw] [--base ADDR] [--entry ADDR] " ++
  "[--vectors] [--config FILE] [--isa A|B|C] [--sp ADDR] [--max-steps N] [--dump]\n"

def switches : List Switch :=
  Source.switches ++
  [⟨"entry", some 'e', true, false⟩, ⟨"vectors", none, false, false⟩,
   ⟨"config", none, true, false⟩, ⟨"isa", none, true, false⟩, ⟨"sp", none, true, false⟩,
   ⟨"max-steps", none, true, false⟩, ⟨"dump", none, false, false⟩]

def Options.parse? (args : List String) : Option Options := do
  let a ← Arguments.scan switches [] args
  return {
    source := ← Source.ofArguments? a
    entry := ← a.option "entry" Arguments.word?
    vectors := a.flag "vectors"
    config := ← a.option "config" Arguments.path?
    tier := ← a.option "isa" Tier.parse?
    sp := ← a.option "sp" Arguments.word?
    maxSteps := ← a.optionOr "max-steps" Arguments.count? 10000000
    dump := a.flag "dump" }

abbrev Simulation := Machine LinearMemory

def startMachine (o : Options) (config : Config) (image : Image) (memory : LinearMemory) :
    Except Failure Simulation :=
  let cpu := Cpu.new config
  if o.vectors then
    match (Run.resetFromVectors : Run LinearMemory Unit) ⟨cpu, memory⟩ with
    | .ok _ machine => .ok machine
    | .error t _ => .error (.ofTrap t)
  else
    let cpu := cpu.reset ((o.entry.or image.start).getD o.source.base)
    let sp := o.sp.getD (UInt32.ofNat config.memorySize &&& ~~~3)
    .ok ⟨cpu.setSp sp, memory⟩

def loadMemory (size : Nat) (image : Image) : Except Failure LinearMemory :=
  match (image.copyTo : EStateM String LinearMemory Unit) (.zeroed size 0) with
  | .ok _ memory => .ok memory
  | .error e _ => .error ⟨e, []⟩

def outcomeText (state : RunState) (count : Nat) (pc : UInt32) : String :=
  let place := s!"after {count} instructions at {Text.hex 8 pc.toNat}\n"
  if state = .running then "step limit reached " ++ place else state.text ++ " " ++ place

variable {m : Type → Type} [Monad m] [Host m]

def readConfig (path : Option String) : Tool m Config :=
  match path with
  | none => pure {}
  | some path => do
    let text ← Tool.doing s!"reading {path}" (Tool.readText path)
    Tool.doing s!"parsing {path}"
      (Tool.orFail (fun e => ⟨e.message, []⟩) (Records.readConfig.run text))

def dump (o : Options) (cpu : Cpu) : Tool m Unit :=
  if o.dump then Tool.print ((Records.cpu cpu).render ++ "\n") else pure ()

def tool (o : Options) : Tool m Unit := do
  let config ← readConfig o.config
  let config := { config with tier := o.tier.getD config.tier }
  let image ← o.source.load
  let memory ← Tool.orFail id (loadMemory config.memorySize image)
  let machine ← Tool.orFail id (startMachine o config image memory)
  match Run.steps Registry.full o.maxSteps machine with
  | .ok (state, count) machine =>
    Tool.printError (outcomeText state count machine.cpu.pc)
    dump o machine.cpu
  | .error t machine =>
    Tool.printError s!"TRAP: {t.message}\n"
    -- The processor is shown as the failed step left it: as before the step.
    dump o machine.cpu
    throw (.ofTrap t)

def run (args : List String) : m UInt32 := Tool.exitCode usage tool (Options.parse? args)

end ColdFire.SimulateTool
