import ColdFire.CommandLine.Load
import ColdFire.CommandLine.Records

namespace ColdFire.DisassembleTool

structure RangeOptions where
  first : UInt32
  limit : UInt32
  showWords : Bool
  json : Bool
  output : Option String

structure AnalyzeOptions where
  entries : List UInt32
  maxInstructions : Nat
  json : Bool
  listing : Bool
  showWords : Bool
  labelsIn : Option String
  labelsOut : Option String
  output : Option String

inductive Command where
  | sections
  | range (o : RangeOptions)
  | analyze (o : AnalyzeOptions)

structure Options where
  source : Source
  part : Extract
  tier : Tier
  command : Command

def usage : String :=
  "usage: cf-disasm FILE [--format intel-hex|s-record|raw] [--base ADDR] [--skip N] [--len N] " ++
  "[--isa A|B|C] sections|range|analyze\n"

def switches : List Switch :=
  Source.switches ++
  [⟨"skip", none, true, false⟩, ⟨"len", none, true, false⟩, ⟨"isa", none, true, false⟩]

def rangeSwitches : List Switch :=
  [⟨"show-bytes", none, false, false⟩, ⟨"json", none, false, false⟩, ⟨"out", none, true, false⟩]

def analyzeSwitches : List Switch :=
  [⟨"entry", none, true, true⟩, ⟨"max-instr", none, true, false⟩, ⟨"emit", none, true, false⟩,
   ⟨"listing", none, false, false⟩, ⟨"show-bytes", none, false, false⟩,
   ⟨"labels-in", none, true, false⟩, ⟨"labels-out", none, true, false⟩,
   ⟨"out", none, true, false⟩]

def RangeOptions.parse? (args : List String) : Option RangeOptions := do
  let a ← Arguments.scan rangeSwitches [] args
  match a.operands with
  | [first, limit] =>
    return {
      first := ← Arguments.word? first
      limit := ← Arguments.word? limit
      showWords := a.flag "show-bytes"
      json := a.flag "json"
      output := ← a.option "out" Arguments.path? }
  | _ => none

def AnalyzeOptions.parse? (args : List String) : Option AnalyzeOptions := do
  let a ← Arguments.scan analyzeSwitches [] args
  if !a.operands.isEmpty then none
  else
    return {
      entries := ← (a.values "entry").mapM Arguments.word?
      maxInstructions := ← a.optionOr "max-instr" Arguments.count? 100000
      json := ← a.optionOr "emit" (Arguments.oneOf [("text", false), ("json", true)]) false
      listing := a.flag "listing"
      showWords := a.flag "show-bytes"
      labelsIn := ← a.option "labels-in" Arguments.path?
      labelsOut := ← a.option "labels-out" Arguments.path?
      output := ← a.option "out" Arguments.path? }

def Command.parse? : String × List String → Option Command
  | ("sections", args) => (Arguments.scan [] [] args).bind fun a =>
      if a.operands.isEmpty then some .sections else none
  | ("range", args) => (RangeOptions.parse? args).map .range
  | ("analyze", args) => (AnalyzeOptions.parse? args).map .analyze
  | _ => none

def Options.parse? (args : List String) : Option Options := do
  let a ← Arguments.scan switches ["sections", "range", "analyze"] args
  return {
    source := ← Source.ofArguments? a
    part := ⟨← a.optionOr "skip" Arguments.count? 0, ← a.option "len" Arguments.count?⟩
    tier := ← a.optionOr "isa" Tier.parse? .c
    command := ← Command.parse? (← a.command) }

def lineText (showWords : Bool) (l : ListingLine) : String :=
  let words := String.intercalate " " (l.words.map fun w =>
    String.ofList (Text.hexDigits 4 w.toNat))
  let shown := if showWords then Text.column 15 words ++ " " else ""
  Text.hex 8 l.address.toNat ++ ": " ++ shown ++ l.text

def sectionsText (img : Image) : String :=
  let row (s : Segment) :=
    Text.hex 8 s.base.toNat ++ "   " ++ Text.hex 8 s.limit ++ "   " ++
      Text.columnRight 8 (toString s.bytes.size) ++ "\n"
  let head := Text.column 12 "start" ++ " " ++ Text.column 12 "end" ++ " " ++
    Text.columnRight 8 "bytes" ++ "\n"
  let entry := match img.start with
    | some addr => s!"entry {Text.hex 8 addr.toNat}\n"
    | none => ""
  head ++ String.join (img.segments.map row) ++ entry

/-- The addresses to analyze from, in ascending order. Without entries it is the start of the image,
or the lowest address. -/
def seeds (img : Image) (entries : List UInt32) : List UInt32 :=
  let chosen := if entries.isEmpty then
      (img.start.or (img.segments.head?.map (·.base))).toList
    else entries
  (Std.ExtTreeSet.ofList chosen compare).toList

abbrev LabelMap := Std.ExtTreeMap UInt32 String compare

def labelName (kind : String) (addr : UInt32) : String :=
  kind ++ "_" ++ String.ofList (Text.hexDigits 8 addr.toNat)

/-- The labels given, of which the last for an address counts, and others for entries and blocks
that have none. -/
def labelMap (given : List Label) (seeds : List UInt32) (blocks : List Block) : LabelMap :=
  let labels := given.foldl (fun (ls : LabelMap) l => ls.insert l.addr l.name) ∅
  let labels := seeds.foldl (fun ls addr => ls.insertIfNew addr (labelName "sub" addr)) labels
  blocks.foldl (fun ls b => ls.insertIfNew b.start (labelName "loc" b.start)) labels

def summary (w : Walk) (r : Report) : String :=
  let entries := String.intercalate ", " (r.entries.map fun addr =>
    "\"" ++ Text.hex 8 addr.toNat ++ "\"")
  let edge (e : Edge) :=
    s!"  {Text.hex 8 e.source.toNat} -> {Text.hex 8 e.target.toNat} ({e.kind.tag})\n"
  "Analysis summary:\n" ++
  s!"  entries   : [{entries}]\n" ++
  s!"  insts     : {w.nodes.size}\n" ++
  s!"  blocks    : {r.blocks.length}\n" ++
  s!"  edges     : {r.edges.length}\n" ++
  s!"  functions : {r.functions.length}\n" ++
  "Edges:\n" ++ String.join (r.edges.map edge)

def listing (img : Image) (tier : Tier) (w : Walk) (labels : LabelMap) (showWords : Bool) :
    Except String String := do
  let lines ← w.visited.mapM fun addr => do
    let head := match labels[addr]? with
      | some name => s!"{Text.hex 8 addr.toNat} <{name}>:\n"
      | none => ""
    let l ← Listing.line img Registry.full tier addr
    return head ++ "  " ++ lineText showWords l ++ "\n"
  return "\nListing (analyzed PCs):\n" ++ String.join lines

def reportText (img : Image) (tier : Tier) (r : Report) (labels : List Label)
    (showWords : Bool) : Except String String := do
  let blocks ← r.blocks.mapM fun b => do
    let lines ← Listing.lines img Registry.full tier b.start b.limit
    return Records.block b (lines.map (lineText showWords))
  return (Records.report r blocks labels).render ++ "\n"

variable {m : Type → Type} [Monad m] [Host m]

def plain (message : String) : Failure := ⟨message, []⟩

def runRange (img : Image) (tier : Tier) (o : RangeOptions) : Tool m Unit := do
  Tool.require (o.first ≤ o.limit) "end must be >= start"
  let lines ← Tool.orFail plain (Listing.lines img Registry.full tier o.first o.limit)
  Tool.emit o.output <|
    if o.json then (Json.Value.list (lines.map Records.listingLine)).render ++ "\n"
    else String.join (lines.map fun l => lineText o.showWords l ++ "\n")

def readLabels (path : Option String) : Tool m (List Label) :=
  match path with
  | none => pure []
  | some path => do
    let text ← Tool.doing s!"reading {path}" (Tool.readText path)
    Tool.orFail (fun e => plain e.message) (Records.readLabels.run text)

def runAnalyze (img : Image) (tier : Tier) (o : AnalyzeOptions) : Tool m Unit := do
  let seeds := seeds img o.entries
  let walk := Walk.fromEntries Registry.full tier img seeds o.maxInstructions
  let report := Report.ofWalk walk seeds
  let labels := labelMap (← readLabels o.labelsIn) seeds report.blocks
  let labelList := labels.toList.map fun (addr, name) => (⟨addr, name⟩ : Label)
  if let some path := o.labelsOut then
    Tool.writeFile path (Text.utf8Bytes (Records.labels labelList).render)
  let text ← Tool.orFail plain <|
    if o.json then reportText img tier report labelList o.showWords
    else if o.listing then
      (listing img tier walk labels o.showWords).map (summary walk report ++ ·)
    else .ok (summary walk report)
  Tool.emit o.output text

def load (o : Options) : Tool m Image :=
  -- To ask for a part is to ask for bytes, whatever the file looks like.
  if o.part.skip ≠ 0 ∨ o.part.length.isSome ∨ o.source.format = some .raw then
    o.source.loadPart o.part
  else o.source.load

def tool (o : Options) : Tool m Unit := do
  let img ← load o
  match o.command with
  | .sections => Tool.print (sectionsText img)
  | .range options => runRange img o.tier options
  | .analyze options => runAnalyze img o.tier options

def run (args : List String) : m UInt32 := Tool.exitCode usage tool (Options.parse? args)

end ColdFire.DisassembleTool
