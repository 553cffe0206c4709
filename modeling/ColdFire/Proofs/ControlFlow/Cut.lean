import ColdFire.ControlFlow.Report
import ColdFire.Proofs.ControlFlow.Reached

namespace ColdFire

namespace Walk

variable {starts : AddressSet} {nodes nodes' free : NodeMap} {addr limit : UInt32}
  {members : List UInt32}

/-- Instructions one behind the other, from an address up to a limit. Only the last one may be
terminal, and only the first one may be a start. -/
inductive Runs (starts : AddressSet) (nodes : NodeMap) (limit : UInt32) :
    UInt32 → List UInt32 → Prop
  | last {addr : UInt32} {node : Node} (h : nodes[addr]? = some node)
      (hlimit : addr + node.width = limit) : Runs starts nodes limit addr [addr]
  | next {addr : UInt32} {node : Node} {members : List UInt32} (h : nodes[addr]? = some node)
      (hon : node.terminal = false) (hinner : addr + node.width ∉ starts)
      (rest : Runs starts nodes limit (addr + node.width) members) :
      Runs starts nodes limit addr (addr :: members)

namespace Runs

theorem mono (h : Runs starts nodes limit addr members)
    (hsub : ∀ (a : UInt32) (node : Node), nodes[a]? = some node → nodes'[a]? = some node) :
    Runs starts nodes' limit addr members := by
  induction h with
  | last h hlimit => exact .last (hsub _ _ h) hlimit
  | next h hon hinner _ ih => exact .next (hsub _ _ h) hon hinner ih

theorem head_mem (h : Runs starts nodes limit addr members) : addr ∈ members := by
  cases h with
  | last => exact List.mem_cons_self
  | next => exact List.mem_cons_self

theorem exists_node (h : Runs starts nodes limit addr members) {a : UInt32} (ha : a ∈ members) :
    ∃ node, nodes[a]? = some node := by
  induction h with
  | last h => exact ⟨_, List.mem_singleton.mp ha ▸ h⟩
  | next h _ _ _ ih =>
    obtain rfl | ha := List.mem_cons.mp ha
    · exact ⟨_, h⟩
    · exact ih ha

theorem not_mem_starts (h : Runs starts nodes limit addr members) {a : UInt32} (ha : a ∈ members)
    (hne : a ≠ addr) : a ∉ starts := by
  induction h with
  | last => exact absurd (List.mem_singleton.mp ha) hne
  | @next addr node members _ _ hinner _ ih =>
    have ha := (List.mem_cons.mp ha).resolve_left hne
    by_cases heq : a = addr + node.width
    · exact heq ▸ hinner
    · exact ih ha heq

theorem inner (h : Runs starts nodes limit addr members) {a : UInt32} (ha : a ∈ members.dropLast) :
    ∃ node, nodes[a]? = some node ∧ node.terminal = false ∧ a + node.width ∉ starts := by
  induction h with
  | last => cases ha
  | next h hon hinner rest ih =>
    rw [List.dropLast_cons_of_ne_nil (List.ne_nil_of_mem rest.head_mem)] at ha
    obtain rfl | ha := List.mem_cons.mp ha
    · exact ⟨_, h, hon, hinner⟩
    · exact ih ha

end Runs

theorem getElem?_erase (a : UInt32) :
    (nodes.erase addr)[a]? = if a = addr then none else nodes[a]? := by
  rw [Std.ExtTreeMap.getElem?_erase]
  by_cases h : a = addr
  · rw [if_pos h, if_pos (Std.LawfulEqCmp.compare_eq_iff_eq.mpr h.symm)]
  · rw [if_neg h, if_neg fun heq => h (Std.LawfulEqCmp.compare_eq_iff_eq.mp heq).symm]

theorem mem_erase {a : UInt32} : a ∈ nodes.erase addr ↔ a ≠ addr ∧ a ∈ nodes := by
  rw [Std.ExtTreeMap.mem_iff_isSome_getElem?, getElem?_erase,
    Std.ExtTreeMap.mem_iff_isSome_getElem?]
  by_cases heq : a = addr <;> simp [heq]

theorem keys_erase (h : addr ∈ nodes) : nodes.keys.Perm (addr :: (nodes.erase addr).keys) := by
  have hnodup : (addr :: (nodes.erase addr).keys).Nodup := by
    refine List.nodup_cons.mpr ⟨?_, Std.ExtTreeMap.nodup_keys⟩
    rw [Std.ExtTreeMap.mem_keys, mem_erase]
    exact fun h => h.1 rfl
  rw [List.perm_ext_iff_of_nodup Std.ExtTreeMap.nodup_keys hnodup]
  intro a
  rw [List.mem_cons, Std.ExtTreeMap.mem_keys, Std.ExtTreeMap.mem_keys, mem_erase]
  by_cases heq : a = addr
  · simp [heq, h]
  · simp [heq]

def GoesOn (starts : AddressSet) (nodes : NodeMap) (a next : UInt32) : Prop :=
  ∃ node, nodes[a]? = some node ∧ node.terminal = false ∧ a + node.width = next ∧ next ∈ nodes ∧
    next ∉ starts

/-- What a chain from an address takes of the free nodes: its members, up to a limit, and what is
left. Where control goes on from a member, the chain goes on too. -/
structure Chained (starts : AddressSet) (free : NodeMap) (addr : UInt32)
    (c : List UInt32 × UInt32 × NodeMap) : Prop where
  runs : Runs starts free c.2.1 addr c.1
  keys : free.keys.Perm (c.1 ++ c.2.2.keys)
  left : ∀ (a : UInt32) (node : Node), c.2.2[a]? = some node → free[a]? = some node
  goesOn : ∀ a ∈ c.1, ∀ next, GoesOn starts free a next → next ∈ c.1

section Chain

variable {node : Node}

theorem chain_of_node (h : free[addr]? = some node) : chain starts free addr =
    if node.terminal || !(free.erase addr).contains (addr + node.width) ||
        starts.contains (addr + node.width) then
      ([addr], addr + node.width, free.erase addr)
    else
      let c := chain starts (free.erase addr) (addr + node.width)
      (addr :: c.1, c.2) := by
  rw [chain]
  split
  · rename_i hnone
    cases hnone.symm.trans h
  · rename_i hsome
    cases hsome.symm.trans h
    rfl

theorem getElem?_of_erase {a : UInt32} {other : Node} (h : (free.erase addr)[a]? = some other) :
    free[a]? = some other := by
  rw [getElem?_erase] at h
  split at h
  · cases h
  · exact h

theorem Chained.stop (hnode : free[addr]? = some node)
    (hstop : node.terminal = true ∨ addr + node.width ∉ free.erase addr ∨
      addr + node.width ∈ starts) :
    Chained starts free addr ([addr], addr + node.width, free.erase addr) := by
  refine ⟨.last hnode rfl, keys_erase (mem_of_node hnode), ?_, ?_⟩
  · exact fun a other ha => getElem?_of_erase ha
  · rintro a ha next ⟨other, hother, hon, rfl, hnext, hinner⟩
    obtain rfl := List.mem_singleton.mp ha
    cases hnode.symm.trans hother
    rcases hstop with hterminal | hleft | hstarts
    · cases hon.symm.trans hterminal
    · by_contra hne
      exact hleft (mem_erase.2 ⟨fun heq => hne (List.mem_singleton.mpr heq), hnext⟩)
    · exact absurd hstarts hinner

theorem Chained.step {c : List UInt32 × UInt32 × NodeMap} (hnode : free[addr]? = some node)
    (hon : node.terminal = false) (hinner : addr + node.width ∉ starts)
    (h : Chained starts (free.erase addr) (addr + node.width) c) :
    Chained starts free addr (addr :: c.1, c.2) := by
  have hsub (a : UInt32) (other : Node) (ha : (free.erase addr)[a]? = some other) :
      free[a]? = some other := getElem?_of_erase ha
  refine ⟨.next hnode hon hinner (h.runs.mono hsub), ?_, ?_, ?_⟩
  · exact (keys_erase (mem_of_node hnode)).trans (h.keys.cons addr)
  · exact fun a other ha => hsub a other (h.left a other ha)
  · rintro a ha next ⟨other, hother, hon', rfl, hnext, hinner'⟩
    by_cases haddr : a = addr
    · subst haddr
      cases hnode.symm.trans hother
      exact List.mem_cons_of_mem _ h.runs.head_mem
    by_cases hback : a + other.width = addr
    · exact hback ▸ List.mem_cons_self
    · refine List.mem_cons_of_mem _ (h.goesOn a ((List.mem_cons.mp ha).resolve_left haddr) _ ?_)
      refine ⟨other, ?_, hon', rfl, mem_erase.2 ⟨hback, hnext⟩, hinner'⟩
      rw [getElem?_erase, if_neg haddr]
      exact hother

theorem chained (h : addr ∈ free) : Chained starts free addr (chain starts free addr) := by
  induction free, addr using chain.induct starts with
  | case1 free addr hnone =>
    rw [Std.ExtTreeMap.mem_iff_isSome_getElem?, hnone] at h
    cases h
  | case2 free addr node hnode left next hstop =>
    rw [chain_of_node hnode, if_pos hstop]
    refine .stop hnode ?_
    rw [Bool.or_eq_true, Bool.or_eq_true, Bool.not_eq_true', or_assoc] at hstop
    refine hstop.imp_right (Or.imp ?_ Std.ExtTreeSet.mem_iff_contains.2)
    rw [Std.ExtTreeMap.mem_iff_contains, Bool.not_eq_true]
    exact id
  | case3 free addr node hnode left next hgo members limit rest hchain ih =>
    rw [chain_of_node hnode, if_neg hgo]
    rw [Bool.or_eq_true, Bool.or_eq_true, Bool.not_eq_true', not_or, not_or,
      Bool.not_eq_false, Bool.not_eq_true] at hgo
    obtain ⟨⟨hon, hleft⟩, hinner⟩ := hgo
    exact .step hnode hon (hinner ∘ Std.ExtTreeSet.mem_iff_contains.1)
      (ih (Std.ExtTreeMap.mem_iff_contains.2 hleft))

end Chain

/-- What blocks from some addresses make of the free nodes. -/
structure Cut (starts : AddressSet) (free : NodeMap) (todo : List UInt32) (blocks : List Block) :
    Prop where
  runs : ∀ b ∈ blocks, Runs starts free b.limit b.start b.members
  keys : ∃ rest, free.keys.Perm (blocks.flatMap (·.members) ++ rest)
  goesOn : ∀ b ∈ blocks, ∀ a ∈ b.members, ∀ next, GoesOn starts free a next →
    ∃ b' ∈ blocks, next ∈ b'.members
  begins : ∀ b ∈ blocks, b.start ∈ todo
  started : ∀ a ∈ todo, a ∈ free → ∃ b ∈ blocks, b.start = a

theorem mem_left {c : List UInt32 × UInt32 × NodeMap} (h : Chained starts free addr c) {a : UInt32}
    (ha : a ∈ free) (hnot : a ∉ c.1) : a ∈ c.2.2 := by
  have hkeys := h.keys.mem_iff.1 (Std.ExtTreeMap.mem_keys.2 ha)
  exact Std.ExtTreeMap.mem_keys.1 ((List.mem_append.mp hkeys).resolve_left hnot)

/-- A chain takes no start but its own, so that every other start is left for the blocks behind. -/
theorem Chained.cut {c : List UInt32 × UInt32 × NodeMap} {todo : List UInt32} {blocks : List Block}
    (h : Chained starts free addr c) (hrest : Cut starts c.2.2 todo blocks)
    (htodo : ∀ a ∈ addr :: todo, a ∈ starts) :
    Cut starts free (addr :: todo) (⟨addr, c.2.1, c.1⟩ :: blocks) := by
  refine ⟨fun b hb => ?_, ?_, fun b hb a ha next hgoes => ?_, fun b hb => ?_, fun a ha hafree => ?_⟩
  · obtain rfl | hb := List.mem_cons.mp hb
    · exact h.runs
    · exact (hrest.runs b hb).mono h.left
  · obtain ⟨rest, hkeys⟩ := hrest.keys
    refine ⟨rest, h.keys.trans ?_⟩
    rw [List.flatMap_cons, List.append_assoc]
    exact hkeys.append_left _
  · -- from a member of this block control stays in it, from another it goes to what this one left
    by_cases hnext : next ∈ c.1
    · exact ⟨_, List.mem_cons_self, hnext⟩
    obtain rfl | hb := List.mem_cons.mp hb
    · exact absurd (h.goesOn a ha next hgoes) hnext
    · have hleft : GoesOn starts c.2.2 a next := by
        obtain ⟨node, hnode, hon, hwidth, hfree, hinner⟩ := hgoes
        obtain ⟨node', hnode'⟩ := (hrest.runs b hb).exists_node ha
        cases hnode.symm.trans (h.left a node' hnode')
        exact ⟨node, hnode', hon, hwidth, mem_left h hfree hnext, hinner⟩
      obtain ⟨b', hb', hmem⟩ := hrest.goesOn b hb a ha next hleft
      exact ⟨b', List.mem_cons_of_mem _ hb', hmem⟩
  · obtain rfl | hb := List.mem_cons.mp hb
    · exact List.mem_cons_self
    · exact List.mem_cons_of_mem _ (hrest.begins b hb)
  · by_cases haddr : a = addr
    · exact ⟨_, List.mem_cons_self, haddr.symm⟩
    · have hleft := mem_left h hafree fun hmem => h.runs.not_mem_starts hmem haddr (htodo a ha)
      obtain ⟨b, hb, hstart⟩ := hrest.started a ((List.mem_cons.mp ha).resolve_left haddr) hleft
      exact ⟨b, List.mem_cons_of_mem _ hb, hstart⟩

theorem cut_blocksFrom {todo : List UInt32} (htodo : ∀ a ∈ todo, a ∈ starts) :
    Cut starts free todo (blocksFrom starts free todo) := by
  induction free, todo using blocksFrom.induct starts with
  | case1 free =>
    exact ⟨nofun, ⟨free.keys, .refl _⟩, nofun, nofun, nofun⟩
  | case2 free start rest hfree members limit left hchain ih =>
    have hc : Chained starts free start (members, limit, left) :=
      hchain ▸ chained (Std.ExtTreeMap.mem_iff_contains.2 hfree)
    rw [blocksFrom, if_pos hfree, hchain]
    exact hc.cut (ih fun a ha => htodo a (List.mem_cons_of_mem _ ha)) htodo
  | case3 free start rest hfree ih =>
    rw [blocksFrom, if_neg hfree]
    have hrest := ih fun a ha => htodo a (List.mem_cons_of_mem _ ha)
    refine { hrest with
      begins := fun b hb => List.mem_cons_of_mem _ (hrest.begins b hb)
      started := fun a ha hafree => ?_ }
    obtain rfl | ha := List.mem_cons.mp ha
    · exact absurd (Std.ExtTreeMap.mem_iff_contains.1 hafree) hfree
    · exact hrest.started a ha hafree

end Walk

end ColdFire
