import ColdFire.Assembly.Lowering
import ColdFire.Assembly.Statement
import ColdFire.Memory.Image

namespace ColdFire

namespace Assembly

structure Placement where
  line : Line
  /-- The location counter in front of the statement. -/
  address : UInt32
  /-- The size to encode an instruction with. -/
  size : Option Size
  /-- The length of an instruction in bytes, as far as the first pass can tell. -/
  length : Nat

structure Emission where
  image : Image := .empty
  /-- Where the first data or instruction was placed. -/
  first : Option UInt32 := none
  pc : UInt32 := 0

def Emission.mark (e : Emission) : Emission := { e with first := e.first.or (some e.pc) }

structure Program where
  image : Image
  symbols : Symbols

def evenAddress (pc : UInt32) : UInt32 := (pc + 1) &&& ~~~1

end Assembly

namespace Assembler

open Assembly

def encodeErrorAt (line : Nat) (r : Except EncodeError α) : Except AssemblyError α :=
  r.mapError (.encode line)

def define (symbols : Symbols) (pc : UInt32) (line : Line) : Except AssemblyError Symbols :=
  match line.label with
  | none => .ok symbols
  | some name =>
    if symbols.contains name then .error (.duplicate line.number name)
    else .ok (symbols.insert name pc)

/-- The size to encode a request with. A branch without one gets the smallest that reaches a known
target, and the word size otherwise. -/
def plannedSize (a : Assembler) (mnemonic : String) (size : Option Size) (ops : Operands)
    (known : Bool) : Option Size :=
  if size.isNone && a.registry.isBranch mnemonic then
    match ops.src with
    | some (.relative off) =>
      -- Both passes must agree, so a target that comes later gets the word form.
      if known then (a.registry.branchSize? mnemonic off a.tier).or (some .word) else some .word
    | _ => some .word
  else ops.size

/-- The size and the length of a statement at `pc`, and the location counter behind it. -/
def place (a : Assembler) (scope : Scope) (pc : UInt32) :
    Statement → Except AssemblyError (Option Size × Nat × UInt32)
  | .org e => do
    -- Everything behind depends on this address, so it has to be known at once.
    let v ← { scope with strict := true }.evalWithin e 0 0xFFFFFFFF ".org address"
    return (none, 0, v.long)
  | .even => .ok (none, 0, evenAddress pc)
  | .data size values => .ok (none, 0, pc + UInt32.ofNat (size.bytes * values.length))
  | .instruction mnemonic size operands => do
    let (ops, known) ← a.request scope mnemonic size operands pc
    let size := a.plannedSize mnemonic size ops known
    let length ← encodeErrorAt scope.line
      (a.registry.calcSize mnemonic { ops with size := size } a.tier)
    return (size, length, pc + UInt32.ofNat length)

def plan (a : Assembler) (symbols : Symbols) (pc : UInt32) :
    List Line → Except AssemblyError (Symbols × List Placement)
  | [] => .ok (symbols, [])
  | line :: rest => do
    let symbols ← define symbols pc line
    let (size, length, next) ← match line.statement with
      | none => pure (none, 0, pc)
      | some statement => a.place ⟨symbols, false, line.number⟩ pc statement
    let (final, placements) ← a.plan symbols next rest
    return (final, ⟨line, pc, size, length⟩ :: placements)

def emitData (scope : Scope) (size : Size) (e : Emission) :
    List Expression → Except AssemblyError Emission
  | [] => .ok e
  | value :: rest => do
    let v ← scope.evalWithin value (-widen size.msb) (widen size.mask) "value"
    let bytes := Bus.bytes size v.long
    emitData scope size
      { e with image := e.image.writeBytes e.pc bytes, pc := e.pc + UInt32.ofNat size.bytes } rest

def emitStatement (a : Assembler) (scope : Scope) (p : Placement) (e : Emission) :
    Statement → Except AssemblyError Emission
  | .org value => do return { e with pc := (← scope.eval value).long }
  | .even => .ok { e with pc := evenAddress e.pc }
  | .data size values => emitData scope size e.mark values
  | .instruction mnemonic size operands => do
    let e := e.mark
    let (ops, _) ← a.request scope mnemonic size operands e.pc
    let words ← encodeErrorAt scope.line
      (a.registry.encode mnemonic { ops with size := p.size } a.tier)
    let length := 2 * words.length
    if length ≠ p.length then throw (scope.flawed (.sizeChanged mnemonic p.length length))
    return { e with image := e.image.writeWords e.pc words, pc := e.pc + UInt32.ofNat length }

def emit (a : Assembler) (symbols : Symbols) (e : Emission) (p : Placement) :
    Except AssemblyError Emission :=
  match p.line.statement with
  | none => .ok e
  | some statement => a.emitStatement ⟨symbols, true, p.line.number⟩ p e statement

def parseLines (source : String) : Except AssemblyError (List Line) :=
  ((Text.lines source.toList).zipIdx 1).mapM fun (text, number) =>
    (Line.parse number text).mapError (.badSyntax number)

/-- The program of a source text. A first pass gives every statement its place and every label its
value, and a second pass encodes. The program starts at the symbol `start` or at what was placed
first. -/
def assemble (a : Assembler) (source : String) : Except AssemblyError Program := do
  let lines ← parseLines source
  let (symbols, placements) ← a.plan ∅ 0 lines
  let e ← placements.foldlM (a.emit symbols) {}
  return ⟨{ e.image with start := symbols["start"]?.or e.first }, symbols⟩

end Assembler

end ColdFire
