import ColdFire.ControlFlow.Walk

namespace ColdFire

/-- The instructions from `start` to `limit`. -/
structure Block where
  start : UInt32
  limit : UInt32
  /-- The addresses of the instructions in order. -/
  members : List UInt32
deriving DecidableEq

namespace Walk

/-- The instructions with an edge other than to the instruction behind. -/
def branching (w : Walk) : AddressSet :=
  .ofList ((w.edges.toList.filter (·.kind ≠ .fallThrough)).map (·.source))

/-- Where blocks start: at the entries, and at every target of an instruction that branches. -/
def starts (w : Walk) (entries : List UInt32) : AddressSet :=
  let branching := w.branching
  .ofList (entries ++
    (w.edges.toList.filter fun e => e.kind ≠ .fallThrough ∨ branching.contains e.source).map
      (·.target))

/-- The instructions that follow one another from `addr` on among the `free` ones, up to a start or
a terminal one: their addresses, the address behind them and the nodes that are left. -/
def chain (starts : AddressSet) (free : NodeMap) (addr : UInt32) :
    List UInt32 × UInt32 × NodeMap :=
  match _h : free[addr]? with
  | none => ([], addr, free)
  | some node =>
    let left := free.erase addr
    let next := addr + node.width
    -- A block ends where another starts, also if that one was cut before.
    if node.terminal || !left.contains next || starts.contains next then ([addr], next, left)
    else
      let (members, limit, left) := chain starts left next
      (addr :: members, limit, left)
termination_by free.size
decreasing_by
  have hc : free.contains addr = true := by
    rw [Std.ExtTreeMap.contains_eq_isSome_getElem?, _h]
    rfl
  have hp : 0 < free.size := by
    rcases Nat.eq_zero_or_pos free.size with h0 | h0
    · have := Std.ExtTreeMap.eq_empty_iff_size_eq_zero.mpr h0
      simp [this] at hc
    · exact h0
  simp only [Std.ExtTreeMap.size_erase, hc]
  simp only [if_true]
  omega

def blocksFrom (starts : AddressSet) (free : NodeMap) : List UInt32 → List Block
  | [] => []
  | start :: rest =>
    if free.contains start then
      let (members, limit, left) := chain starts free start
      ⟨start, limit, members⟩ :: blocksFrom starts left rest
    else blocksFrom starts free rest

def blocks (w : Walk) (entries : List UInt32) : List Block :=
  let starts := w.starts entries
  blocksFrom starts w.nodes starts.toList

end Walk

end ColdFire
