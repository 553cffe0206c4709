import ColdFire.ControlRegister
import ColdFire.Tier

namespace ColdFire

structure Config where
  tier : Tier := .c
  /-- Bytes of memory that a run gets. -/
  memorySize : Nat := 16 * 1024 * 1024
  /-- The vector base after a reset. -/
  resetVbr : UInt32 := 0
deriving DecidableEq, Inhabited

inductive RunState where
  | running | stopped | halted
deriving DecidableEq, Inhabited

def RunState.text : RunState → String
  | running => "Running"
  | stopped => "Stopped"
  | halted => "Halted"

inductive Flag where
  | carry | overflow | zero | negative | extend | master | supervisor | trace
deriving DecidableEq

namespace Flag

def mask : Flag → UInt16
  | carry => 0x0001
  | overflow => 0x0002
  | zero => 0x0004
  | negative => 0x0008
  | extend => 0x0010
  | master => 0x1000
  | supervisor => 0x2000
  | trace => 0x8000

def isSet (f : Flag) (status : UInt16) : Bool := status &&& f.mask != 0

def put (f : Flag) (on : Bool) (status : UInt16) : UInt16 :=
  if on then status ||| f.mask else status &&& ~~~f.mask

end Flag

namespace Status

/-- The bits that the status register has. -/
def implemented : UInt16 := 0xB71F
def conditionCodes : UInt16 := 0x001F
def priorityMask : UInt16 := 0x0700
/-- Supervisor mode with all interrupts masked. -/
def reset : UInt16 := 0x2700

end Status

structure Cpu where
  pc : UInt32
  d : Vector UInt32 8
  /-- The address registers. A7 is the stack pointer of the current mode. -/
  a : Vector UInt32 8
  sr : UInt16
  /-- The stack pointer of the other mode. -/
  otherSp : UInt32
  /-- The control registers in the order of their table. -/
  control : Vector UInt32 13
  state : RunState
  config : Config
deriving DecidableEq, Inhabited

def regIndex (r : UInt8) : Fin 8 := ⟨r.toNat % 8, Nat.mod_lt _ (by decide)⟩

namespace Cpu

def dataReg (cpu : Cpu) (r : UInt8) : UInt32 := cpu.d[regIndex r]

def addrReg (cpu : Cpu) (r : UInt8) : UInt32 := cpu.a[regIndex r]

def setDataReg (cpu : Cpu) (r : UInt8) (v : UInt32) : Cpu :=
  { cpu with d := cpu.d.set (regIndex r) v }

def setAddrReg (cpu : Cpu) (r : UInt8) (v : UInt32) : Cpu :=
  { cpu with a := cpu.a.set (regIndex r) v }

/-- The stack pointer of the current mode. -/
def sp (cpu : Cpu) : UInt32 := cpu.addrReg 7

def setSp (cpu : Cpu) (v : UInt32) : Cpu := cpu.setAddrReg 7 v

def flag (cpu : Cpu) (f : Flag) : Bool := f.isSet cpu.sr

def setFlag (cpu : Cpu) (f : Flag) (on : Bool) : Cpu := { cpu with sr := f.put on cpu.sr }

def isSupervisor (cpu : Cpu) : Bool := cpu.flag .supervisor

/-- Loads the status register. The stack pointers change places when the mode changes. -/
def setSr (cpu : Cpu) (value : UInt16) : Cpu :=
  let status := value &&& Status.implemented
  -- As long as the mode stays, so do the stack pointers.
  if Flag.supervisor.isSet status = cpu.isSupervisor then { cpu with sr := status }
  else { (cpu.setSp cpu.otherSp) with sr := status, otherSp := cpu.sp }

def ccr (cpu : Cpu) : UInt8 := (cpu.sr &&& Status.conditionCodes).toUInt8

def setCcr (cpu : Cpu) (value : UInt8) : Cpu :=
  { cpu with
    sr := (cpu.sr &&& ~~~Status.conditionCodes) ||| (value.toUInt16 &&& Status.conditionCodes) }

def usp (cpu : Cpu) : UInt32 := if cpu.isSupervisor then cpu.otherSp else cpu.sp

def setUsp (cpu : Cpu) (v : UInt32) : Cpu :=
  if cpu.isSupervisor then { cpu with otherSp := v } else cpu.setSp v

def ssp (cpu : Cpu) : UInt32 := if cpu.isSupervisor then cpu.sp else cpu.otherSp

def control? (cpu : Cpu) (code : UInt16) : Option UInt32 :=
  (ControlRegister.position? code).map fun i => cpu.control[i]

def setControl? (cpu : Cpu) (code : UInt16) (v : UInt32) : Option Cpu :=
  (ControlRegister.position? code).map fun i =>
    { cpu with control := cpu.control.set i.val v i.isLt }

def vbr (cpu : Cpu) : UInt32 := (cpu.control? ControlRegister.vbr).getD 0

/-- Goes on at `pc` in supervisor mode. The stack pointers stay where they are. -/
def reset (cpu : Cpu) (pc : UInt32) : Cpu :=
  { cpu with sr := Status.reset, pc := pc, state := .running }

def new (config : Config) : Cpu :=
  let cpu : Cpu :=
    { pc := 0
      d := .replicate 8 0
      a := .replicate 8 0
      sr := Status.reset
      otherSp := 0
      control := .replicate 13 0
      state := .running
      config := config }
  (cpu.setControl? ControlRegister.vbr config.resetVbr).getD cpu

end Cpu

end ColdFire
