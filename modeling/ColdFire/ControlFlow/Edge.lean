import ColdFire.Instruction.Definition

namespace ColdFire

inductive EdgeKind where
  | fallThrough
  | branch
  | condBranch
  | call
deriving DecidableEq

def EdgeKind.tag : EdgeKind → String
  | .fallThrough => "ft"
  | .branch => "br"
  | .condBranch => "cbr"
  | .call => "call"

structure Edge where
  source : UInt32
  target : UInt32
  kind : EdgeKind
deriving DecidableEq

namespace Flow

def edgeKind? : Flow → Option EdgeKind
  | next | «return» | stop => none
  | branch | indirect => some .branch
  | condBranch => some .condBranch
  | call => some .call

/-- Whether the instruction behind may be the next one. After a call it is, once the call is
over. -/
def fallsThrough : Flow → Bool
  | next | condBranch | call => true
  | branch | indirect | «return» | stop => false

end Flow

def Decoded.edges (d : Decoded) (flow : Flow) : List Edge :=
  let away := match flow.edgeKind?, d.staticTarget? with
    | some kind, some target => [⟨d.address, target, kind⟩]
    | _, _ => []
  if flow.fallsThrough then away ++ [⟨d.address, d.nextAddress, .fallThrough⟩] else away

end ColdFire
