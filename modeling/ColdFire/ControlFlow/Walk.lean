import ColdFire.ControlFlow.Edge
import ColdFire.Execution.Context
import ColdFire.Memory.Image
import ColdFire.Registry
import Std.Data.ExtTreeSet

namespace ColdFire

structure Node where
  /-- Its length in bytes. -/
  width : UInt32
  /-- Whether control never goes on to the instruction behind. -/
  terminal : Bool
deriving DecidableEq

abbrev NodeMap := Std.ExtTreeMap UInt32 Node compare
abbrev AddressSet := Std.ExtTreeSet UInt32 compare

structure Walk where
  nodes : NodeMap := ∅
  /-- In the order in which they were found. -/
  edges : Array Edge := #[]
  /-- The addresses that were still to be looked at when the budget was spent. -/
  pending : List UInt32 := []

namespace Walk

/-- The instruction at an address of an image, if there is a whole one, and how it hands on
control. -/
def instructionAt? (r : Registry) (tier : Tier) (img : Image) (addr : UInt32) :
    Option (Flow × Decoded) :=
  match WordSource.ofBus img addr with
  | .error _ => none
  | .ok source =>
    match r.lookup source.opcode tier with
    | none => none
    | some (d, _) =>
      match d.decode source .start with
      | .ok decoded _ => some (d.flow, decoded)
      | .error .. => none

def visit (w : Walk) (flow : Flow) (d : Decoded) : Walk :=
  { w with
    nodes := w.nodes.insert d.address ⟨UInt32.ofNat d.length, !flow.fallsThrough⟩
    edges := w.edges ++ d.edges flow }

/-- Goes on from the addresses in a queue; at most `budget` instructions are visited. -/
def extend (r : Registry) (tier : Tier) (img : Image) (budget : Nat) (queue : List UInt32)
    (w : Walk) : Walk :=
  match queue, budget with
  | [], _ => w
  | addr :: rest, 0 => { w with pending := addr :: rest }
  | addr :: rest, budget + 1 =>
    -- An address that was seen costs nothing.
    if w.nodes.contains addr then extend r tier img (budget + 1) rest w
    else
      match instructionAt? r tier img addr with
      | none => extend r tier img (budget + 1) rest w
      | some (flow, d) =>
        -- Edges out of the image are noted but not followed.
        let targets := (d.edges flow).map (·.target)
        extend r tier img budget (rest ++ targets.filter img.isMapped) (w.visit flow d)
termination_by (budget, queue.length)

/-- The walk from some entries, breadth first. It follows the edges that the instructions alone tell,
only into the image, and visits at most `budget` instructions. -/
def fromEntries (r : Registry) (tier : Tier) (img : Image) (entries : List UInt32)
    (budget : Nat) : Walk :=
  extend r tier img budget (entries.filter img.isMapped) {}

def visited (w : Walk) : List UInt32 := w.nodes.keys

/-- The visited addresses from which control never goes on to the instruction behind. -/
def terminators (w : Walk) : List UInt32 :=
  (w.nodes.toList.filter (·.2.terminal)).map (·.1)

end Walk

end ColdFire
