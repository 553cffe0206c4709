import ColdFire.Fault

namespace ColdFire

/-- The words of an instruction: the opcode word at `address`, and behind it as many extension words
as can be read, counted from 0. Reading a word has no effect. -/
structure WordSource where
  opcode : UInt16
  address : UInt32
  extension : Nat → Except Trap UInt16

namespace WordSource

/-- The address of an extension word, or of the one after the last that was read. -/
def extensionAddress (s : WordSource) (i : Nat) : UInt32 :=
  s.address + 2 + UInt32.ofNat (2 * i)

def ofWords (opcode : UInt16) (extensions : List UInt16) (address : UInt32) : WordSource where
  opcode := opcode
  address := address
  extension i :=
    match extensions[i]? with
    | some w => .ok w
    | none =>
      .error (.bus (address + 2 + UInt32.ofNat (2 * i))
        s!"instruction truncated after {i + 1} word(s)")

def ofList? (words : List UInt16) (address : UInt32) : Option WordSource :=
  match words with
  | [] => none
  | opcode :: extensions => some (ofWords opcode extensions address)

end WordSource

structure Cursor where
  /-- Extension words read so far. -/
  consumed : Nat
  /-- Extension words read before the operand that is relative to the program counter. -/
  pcMark : Nat
deriving DecidableEq, Inhabited

def Cursor.start : Cursor := ⟨0, 0⟩

abbrev Decoder := ReaderT WordSource (EStateM Trap Cursor)

namespace Decoder

def nextWord : Decoder UInt16 := fun source cursor =>
  match source.extension cursor.consumed with
  | .ok w => .ok w { cursor with consumed := cursor.consumed + 1 }
  | .error t => .error t cursor

def nextLong : Decoder UInt32 := do
  let high ← nextWord
  let low ← nextWord
  return (high.toUInt32 <<< 16) ||| low.toUInt32

def markPcRelative : Decoder Unit := fun _ cursor =>
  .ok () { cursor with pcMark := cursor.consumed }

def reserved (cause : ReservedCause) : Decoder α := fun source cursor =>
  .error (.reserved source.opcode source.address cause) cursor

def undecodable (detail : String) : Decoder α := fun source cursor =>
  .error (.logic (.undecodable source.opcode detail)) cursor

def opcode : Decoder UInt16 := fun source cursor => .ok source.opcode cursor

end Decoder

end ColdFire
