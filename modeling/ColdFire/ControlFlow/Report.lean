import ColdFire.ControlFlow.Block

namespace ColdFire

structure Function where
  entry : UInt32
  blocks : List UInt32
deriving DecidableEq

structure Report where
  entries : List UInt32
  blocks : List Block
  /-- Between blocks; a source that is in no block stands for itself. -/
  edges : List Edge
  functions : List Function
deriving DecidableEq

namespace Report

def owners (blocks : List Block) : Std.ExtTreeMap UInt32 UInt32 compare :=
  .ofList (blocks.flatMap fun b => b.members.map fun addr => (addr, b.start))

/-- The edges that lead to the start of a block, each from the block that its source is in. -/
def blockEdges (w : Walk) (starts : AddressSet) (blocks : List Block) : List Edge :=
  let owners := owners blocks
  (w.edges.toList.filter fun e => e.kind ≠ .fallThrough ∨ starts.contains e.target).map fun e =>
    { e with source := owners.getD e.source e.source }

def leaving (addr : UInt32) (edges : List Edge) : List Edge :=
  edges.filter fun e => e.source = addr

def notLeaving (addr : UInt32) (edges : List Edge) : List Edge :=
  edges.filter fun e => e.source ≠ addr

theorem length_leaving_add (addr : UInt32) (edges : List Edge) :
    (leaving addr edges).length + (notLeaving addr edges).length = edges.length := by
  induction edges with
  | nil => rfl
  | cons e rest ih =>
    by_cases h : e.source = addr <;> simp [leaving, notLeaving, h] at ih ⊢ <;> omega

/-- What can be reached from a queue of addresses, along edges that have not been used yet, and what
was `seen` before. -/
def reach (edges : List Edge) (queue : List UInt32) (seen : AddressSet) : AddressSet :=
  match queue with
  | [] => seen
  | addr :: rest =>
    if seen.contains addr then reach edges rest seen
    else
      reach (notLeaving addr edges) (rest ++ (leaving addr edges).map (·.target))
        (seen.insert addr)
termination_by edges.length + queue.length
decreasing_by
  · simp
  · have := length_leaving_add addr edges
    simp only [List.length_append, List.length_map, List.length_cons]
    omega

def function (edges : List Edge) (entry : UInt32) : Function :=
  ⟨entry, (reach edges [entry] ∅).toList⟩

def ofWalk (w : Walk) (entries : List UInt32) : Report :=
  let blocks := w.blocks entries
  let edges := blockEdges w (w.starts entries) blocks
  ⟨entries, blocks, edges, entries.map (function edges)⟩

end Report

end ColdFire
