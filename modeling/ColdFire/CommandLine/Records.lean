import ColdFire.ControlFlow.Report
import ColdFire.Json.Decode
import ColdFire.Json.Value
import ColdFire.Listing

namespace ColdFire

open Json (Value)

structure Label where
  addr : UInt32
  name : String

namespace Records

def u8 (v : UInt8) : Value := .nat v.toNat
def u16 (v : UInt16) : Value := .nat v.toNat
def u32 (v : UInt32) : Value := .nat v.toNat

def tagged (kind : String) (v : Value) : Value := .record [(kind, v)]

def size : Size → Value
  | .byte => .text "Byte"
  | .word => .text "Word"
  | .long => .text "Long"

def special : SpecialReg → Value
  | .sr => .text "Sr"
  | .ccr => .text "Ccr"
  | .usp => .text "Usp"
  | .control code => tagged "Control" (u16 code)
  | .cache c => tagged "Cache" (u8 c)

def index (ix : IndexReg) : Value :=
  .record [("addr", .bool ix.addr), ("reg", u8 ix.reg), ("long", .bool ix.long),
    ("scale", u8 ix.scale)]

def ea : Ea → Value
  | .dataReg r => tagged "DataReg" (u8 r)
  | .addrReg r => tagged "AddrReg" (u8 r)
  | .indirect r => tagged "Indirect" (u8 r)
  | .postInc r => tagged "PostInc" (u8 r)
  | .preDec r => tagged "PreDec" (u8 r)
  | .disp r d => tagged "Disp" (.record [("reg", u8 r), ("disp", .int d.toInt)])
  | .index r d ix =>
    tagged "Index" (.record [("reg", u8 r), ("disp", .int d.toInt), ("index", index ix)])
  | .absShort v => tagged "AbsShort" (.int v.toInt)
  | .absLong v => tagged "AbsLong" (u32 v)
  | .pcDisp d => tagged "PcDisp" (.int d.toInt)
  | .pcIndex d ix => tagged "PcIndex" (.record [("disp", .int d.toInt), ("index", index ix)])
  | .immediate v => tagged "Immediate" (u32 v)
  | .regList mask => tagged "RegList" (u16 mask)
  | .relative off => tagged "Relative" (.int off.toInt)
  | .regPair w x => tagged "RegPair" (.list [u8 w, u8 x])
  | .special s => tagged "Special" (special s)

def decoded (d : Decoded) : Value :=
  .record [("mnemonic", .text d.mnemonic), ("size", .ofOption size d.size),
    ("opcode", u16 d.opcode), ("address", u32 d.address), ("src", .ofOption ea d.src),
    ("dst", .ofOption ea d.dst), ("ext_words", .nat d.extWords)]

def listingLine (l : ListingLine) : Value :=
  .record [("address", u32 l.address), ("words", .list (l.words.map u16)), ("text", .text l.text),
    ("decoded", .ofOption decoded l.decoded)]

def block (b : Block) (lines : List String) : Value :=
  .record [("start", u32 b.start), ("end", u32 b.limit), ("insns", .list (lines.map .text))]

def edge (e : Edge) : Value :=
  .record [("from", u32 e.source), ("to", u32 e.target), ("kind", .text e.kind.tag)]

def function (f : Function) : Value :=
  .record [("entry", u32 f.entry), ("blocks", .list (f.blocks.map u32))]

def label (l : Label) : Value := .record [("addr", u32 l.addr), ("name", .text l.name)]

def labels (ls : List Label) : Value := .list (ls.map label)

def report (r : Report) (blocks : List Value) (ls : List Label) : Value :=
  .record [("entries", .list (r.entries.map u32)), ("blocks", .list blocks),
    ("edges", .list (r.edges.map edge)), ("functions", .list (r.functions.map function)),
    ("labels", labels ls)]

def tier (t : Tier) : Value := .text t.letter.toString

def config (c : Config) : Value :=
  .record [("isa", tier c.tier), ("memory_size", .nat c.memorySize), ("reset_vbr", u32 c.resetVbr)]

def statusParts : List (String × UInt16) :=
  [("C", Flag.carry.mask), ("V", Flag.overflow.mask), ("Z", Flag.zero.mask),
   ("N", Flag.negative.mask), ("X", Flag.extend.mask), ("IPL", Status.priorityMask),
   ("M", Flag.master.mask), ("S", Flag.supervisor.mask), ("T", Flag.trace.mask)]

/-- The names of the parts of which all bits are set, and then the other bits. -/
def statusText (sr : UInt16) : String :=
  let full := statusParts.filter fun (_, mask) => sr &&& mask == mask
  let others := full.foldl (fun rest (_, mask) => rest &&& ~~~mask) sr
  let names := full.map (·.1)
  String.intercalate " | " (if others = 0 then names else names ++ [Text.hex 1 others.toNat])

def cpu (c : Cpu) : Value :=
  .record [("pc", u32 c.pc), ("d", .list (c.d.toList.map u32)), ("a", .list (c.a.toList.map u32)),
    ("sr", .text (statusText c.sr)), ("other_sp", u32 c.otherSp),
    ("control", .list (c.control.toList.map u32)), ("state", .text c.state.text),
    ("cfg", config c.config)]

open Json Json.Reader

def readWord : Reader UInt32 := do return UInt32.ofNat (← natural 0x100000000 "u32")

structure PartialLabel where
  addr : Option UInt32 := none
  name : Option String := none

def labelKind : String := "struct LabelKV"

def labelField (field : String) (known : PartialLabel) : Reader (Except Flaw PartialLabel) := do
  match field with
  | "addr" => return (← once field known.addr readWord).map fun v => { known with addr := some v }
  | "name" => return (← once field known.name text).map fun v => { known with name := some v }
  | _ => do
    colon
    skipValue
    return .ok known

def labelItems : Reader (Except Flaw Label) := do
  let short (n : Nat) : Except Flaw Label :=
    .error (.invalidLength n (labelKind ++ " with 2 elements"))
  if !(← nextItem true) then return short 0
  else
    let addr ← readWord
    if !(← nextItem false) then return short 1
    else return .ok ⟨addr, ← text⟩

def completeLabel (known : PartialLabel) : Except Flaw Label :=
  match known.addr, known.name with
  | some addr, some name => .ok ⟨addr, name⟩
  | none, _ => .error (.missingField "addr")
  | some _, none => .error (.missingField "name")

def readLabels : Reader (List Label) :=
  list (record labelKind {} labelField labelItems completeLabel)

/-- The tier of a letter; only the letter alone counts. -/
def tierOfLetter? (s : String) : Option Tier := Tier.all.find? fun t => t.letter.toString == s

def readTier : Reader Tier := variantOf tierOfLetter? "one of `A`, `B`, `C`"

def readMemorySize : Reader Nat := natural 0x10000000000000000 "usize"

structure PartialConfig where
  tier : Option Tier := none
  memorySize : Option Nat := none
  resetVbr : Option UInt32 := none

/-- What is not given keeps its usual value. -/
def completeConfig (known : PartialConfig) : Config :=
  let usual : Config := {}
  ⟨known.tier.getD usual.tier, known.memorySize.getD usual.memorySize,
    known.resetVbr.getD usual.resetVbr⟩

def configField (field : String) (known : PartialConfig) :
    Reader (Except Flaw PartialConfig) := do
  match field with
  | "isa" => return (← once field known.tier readTier).map fun v => { known with tier := some v }
  | "memory_size" =>
    return (← once field known.memorySize readMemorySize).map fun v =>
      { known with memorySize := some v }
  | "reset_vbr" =>
    return (← once field known.resetVbr readWord).map fun v => { known with resetVbr := some v }
  | _ => do
    colon
    skipValue
    return .ok known

def configItems : Reader (Except Flaw Config) := do
  if !(← nextItem true) then return .ok (completeConfig {})
  else
    let tier ← readTier
    if !(← nextItem false) then return .ok (completeConfig { tier := some tier })
    else
      let memorySize ← readMemorySize
      if !(← nextItem false) then
        return .ok (completeConfig { tier := some tier, memorySize := some memorySize })
      else return .ok ⟨tier, memorySize, ← readWord⟩

def readConfig : Reader Config :=
  record "struct CpuConfig" {} configField configItems fun known => .ok (completeConfig known)

end Records

end ColdFire
