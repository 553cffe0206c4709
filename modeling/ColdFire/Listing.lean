import ColdFire.Execution.Context
import ColdFire.Instruction.Text
import ColdFire.Registry

namespace ColdFire

structure ListingLine where
  address : UInt32
  words : List UInt16
  text : String
  /-- The instruction; none for a word that is shown as data. -/
  decoded : Option Decoded
deriving DecidableEq

namespace Listing

/-- A word that starts no instruction. -/
def dataLine (address : UInt32) (word : UInt16) : ListingLine where
  address := address
  words := [word]
  text := "dc.w " ++ Text.hex 4 word.toNat
  decoded := none

def instructionWords [Bus β] (bus : β) (d : Decoded) : Except String (List UInt16) :=
  (List.range (1 + d.extWords)).mapM fun i =>
    (Bus.read bus .word (d.address + UInt32.ofNat (2 * i))).map UInt32.toUInt16

/-- The line for an address. A word that starts no whole instruction is shown as data. -/
def line [Bus β] (bus : β) (r : Registry) (tier : Tier) (address : UInt32) :
    Except String ListingLine := do
  let opcode := (← Bus.read bus .word address).toUInt16
  match r.decode tier (.inMemory bus opcode address) .start with
  | .ok (some d) _ => return ⟨address, ← instructionWords bus d, d.text, some d⟩
  -- Words that break off count as data too.
  | _ => return dataLine address opcode

def linesFrom [Bus β] (bus : β) (r : Registry) (tier : Tier) (limit : UInt32) :
    Nat → UInt32 → Except String (List ListingLine)
  | 0, address => if address < limit then .error "the listing has no end" else .ok []
  | fuel + 1, address =>
    if address < limit then do
      let first ← line bus r tier address
      let rest ← linesFrom bus r tier limit fuel (address + UInt32.ofNat (2 * first.words.length))
      return first :: rest
    else .ok []

/-- The lines from `first` up to `limit`. Behind the highest address comes the lowest. A listing with
an end has at most as many lines as there are words in the address space, for it never comes back to
an address. -/
def lines [Bus β] (bus : β) (r : Registry) (tier : Tier) (first limit : UInt32) :
    Except String (List ListingLine) :=
  linesFrom bus r tier limit 0x80000000 first

end Listing

end ColdFire
