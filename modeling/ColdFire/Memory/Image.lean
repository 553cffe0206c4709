import ColdFire.Memory.Bus
import ColdFire.Text.Number
import Std.Data.ExtTreeMap

namespace ColdFire

structure Image where
  bytes : Std.ExtTreeMap UInt32 UInt8 compare := ∅
  start : Option UInt32 := none

structure Segment where
  base : UInt32
  bytes : Array UInt8
deriving DecidableEq

/-- The address behind a segment, which may be beyond 32 bits. -/
def Segment.limit (s : Segment) : Nat := s.base.toNat + s.bytes.size

namespace Image

def empty : Image := {}

def get? (img : Image) (addr : UInt32) : Option UInt8 := img.bytes[addr]?

def isMapped (img : Image) (addr : UInt32) : Bool := img.bytes.contains addr

def size (img : Image) : Nat := img.bytes.size

def isEmpty (img : Image) : Bool := img.bytes.isEmpty

def set (img : Image) (addr : UInt32) (b : UInt8) : Image :=
  { img with bytes := img.bytes.insert addr b }

/-- Maps bytes from an address on. Behind the highest address the lowest follows. -/
def writeBytes (img : Image) (addr : UInt32) : List UInt8 → Image
  | [] => img
  | b :: rest => (img.set addr b).writeBytes (addr + 1) rest

def wordBytes (words : List UInt16) : List UInt8 :=
  words.flatMap fun w => Bus.bytes .word w.toUInt32

def writeWords (img : Image) (addr : UInt32) (words : List UInt16) : Image :=
  img.writeBytes addr (wordBytes words)

def ofBytes (base : UInt32) (bytes : List UInt8) : Image :=
  empty.writeBytes base bytes

/-- The lowest mapped address and the one behind the highest. -/
def bounds? (img : Image) : Option (UInt32 × Nat) :=
  match img.bytes.minKey?, img.bytes.maxKey? with
  | some low, some high => some (low, high.toNat + 1)
  | _, _ => none

/-- Adds the next byte in ascending order to the segments so far, the last of which comes first. -/
def extendSegments (done : List Segment) (addr : UInt32) (b : UInt8) : List Segment :=
  match done with
  | ⟨base, bytes⟩ :: rest =>
    if base.toNat + bytes.size = addr.toNat then ⟨base, bytes.push b⟩ :: rest
    else ⟨addr, #[b]⟩ :: ⟨base, bytes⟩ :: rest
  | [] => [⟨addr, #[b]⟩]

def segments (img : Image) : List Segment :=
  (img.bytes.foldl extendSegments []).reverse

def toList (img : Image) : List (UInt32 × UInt8) := img.bytes.toList

def storeAll [Bus β] : List (UInt32 × UInt8) → EStateM String β Unit
  | [] => pure ()
  | (addr, b) :: rest => do
    Bus.write .byte addr b.toUInt32
    storeAll rest

def copyTo [Bus β] (img : Image) : EStateM String β Unit := storeAll img.toList

def byte (img : Image) (addr : UInt32) : Except String UInt8 :=
  match img.get? addr with
  | some b => .ok b
  | none => .error s!"address {Text.hex 8 addr.toNat} is not part of the image"

def read (img : Image) (size : Size) (addr : UInt32) : Except String UInt32 := do
  let bytes ← (List.range size.bytes).mapM fun k => img.byte (addr + UInt32.ofNat k)
  return Bus.value bytes

def write (size : Size) (addr v : UInt32) : EStateM String Image Unit := fun img =>
  .ok () (img.writeBytes addr (Bus.bytes size v))

instance : Bus Image := ⟨read, write⟩

end Image

end ColdFire
