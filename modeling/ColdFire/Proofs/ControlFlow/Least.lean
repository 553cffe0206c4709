import ColdFire.Proofs.ControlFlow.Computed
import ColdFire.Proofs.ControlFlow.Reached
import Mathlib.Data.List.Perm.Subperm
import Mathlib.Order.Bounds.Defs

namespace ColdFire

namespace Walk

variable {r : Registry} {tier : Tier} {img : Image} {entries entries' : List UInt32} {w : Walk}
  {addr : UInt32} {budget : Nat}

def Walkable (r : Registry) (tier : Tier) (img : Image) (addr : UInt32) : Prop :=
  img.isMapped addr = true ∧ (instructionAt? r tier img addr).isSome = true

/-- A set of addresses that has the walkable entries, and the walkable targets of the edges out of its
members. -/
structure Complete (r : Registry) (tier : Tier) (img : Image) (entries : List UInt32)
    (s : Set UInt32) : Prop where
  entries : ∀ addr ∈ entries, Walkable r tier img addr → addr ∈ s
  successors : ∀ addr ∈ s, ∀ e ∈ edgesAt r tier img addr, Walkable r tier img e.target →
    e.target ∈ s

theorem Complete.congr {s : Set UInt32} (h : Complete r tier img entries s)
    (hentries : ∀ addr, addr ∈ entries' ↔ addr ∈ entries) : Complete r tier img entries' s :=
  { h with entries := fun addr haddr => h.entries addr ((hentries addr).1 haddr) }

theorem Rooted.walkable {queue : List UInt32} (h : Rooted r tier img entries queue w)
    (haddr : addr ∈ w.nodes) : Walkable r tier img addr := by
  obtain ⟨node, hnode⟩ := exists_node haddr
  obtain ⟨flow, d, hsome, -⟩ := h.nodes addr node hnode
  refine ⟨?_, by rw [hsome]; rfl⟩
  by_contra hunmapped
  rw [instructionAt?_of_unmapped (Bool.eq_false_iff.mpr hunmapped)] at hsome
  cases hsome

/-- A complete set has what a walk visits, at any budget: a path from an entry cannot leave it. -/
theorem Rooted.subset {queue : List UInt32} (h : Rooted r tier img entries queue w)
    {s : Set UInt32} (hs : Complete r tier img entries s) (haddr : addr ∈ w.nodes) : addr ∈ s := by
  obtain ⟨entry, hentry, hvisited, hreaches⟩ := h.roots addr haddr
  induction hreaches with
  | refl => exact hs.entries entry hentry (h.walkable hvisited)
  | tail _ hleads ih =>
    obtain ⟨e, he, rfl, rfl⟩ := hleads
    obtain ⟨hsource, he⟩ := h.mem_edges.1 (Array.mem_toList_iff.1 he)
    exact hs.successors _ (ih hsource) e he (h.walkable haddr)

theorem Closed.complete (h : Closed r tier img entries [] w) :
    Complete r tier img entries {addr | addr ∈ w.visited} := by
  have hcovered (addr : UInt32) (hcovers : Covered r tier img [] w addr)
      (hwalkable : Walkable r tier img addr) : addr ∈ w.visited := by
    rcases hcovers with hnode | hnone | hmem
    · exact mem_visited.2 hnode
    · rw [Walkable, hnone] at hwalkable
      cases hwalkable.2
    · cases hmem
  refine ⟨fun addr haddr => hcovered addr (h.entries addr haddr), fun addr haddr e he => ?_⟩
  obtain ⟨node, hnode⟩ := exists_node (mem_visited.1 haddr)
  obtain ⟨flow, d, hexplored⟩ := h.nodes addr node hnode
  rw [edgesAt_of_some hexplored.instruction] at he
  exact hcovered e.target (hexplored.targets e he)

theorem Rooted.eq_of_visited {queue queue' : List UInt32} {w' : Walk}
    (h : Rooted r tier img entries queue w) (h' : Rooted r tier img entries' queue' w')
    (hvisited : w'.visited = w.visited) :
    w'.nodes = w.nodes ∧ w'.edges.toList.Perm w.edges.toList := by
  refine ⟨Std.ExtTreeMap.ext_getElem? fun addr => ?_, ?_⟩
  · have hmem : addr ∈ w'.nodes ↔ addr ∈ w.nodes := by
      rw [← mem_visited, hvisited, mem_visited]
    by_cases haddr : addr ∈ w.nodes
    · obtain ⟨node, hnode⟩ := exists_node haddr
      obtain ⟨node', hnode'⟩ := exists_node (hmem.2 haddr)
      obtain ⟨flow, d, hsome, rfl⟩ := h.nodes addr node hnode
      obtain ⟨flow', d', hsome', rfl⟩ := h'.nodes addr node' hnode'
      obtain ⟨rfl, rfl⟩ := Prod.mk.inj (Option.some.inj (hsome.symm.trans hsome'))
      rw [hnode, hnode']
    · rw [Std.ExtTreeMap.getElem?_eq_none haddr, Std.ExtTreeMap.getElem?_eq_none (haddr ∘ hmem.1)]
  · calc List.Perm w'.edges.toList (w'.visited.flatMap (edgesAt r tier img)) := h'.edges
      List.Perm _ (w.visited.flatMap (edgesAt r tier img)) := by rw [hvisited]
      List.Perm _ w.edges.toList := h.edges.symm

/-- A walk that visits no others than another one, and as many, visits the same. -/
theorem visited_eq_of_subset {w' : Walk} (hsub : ∀ addr ∈ w'.nodes, addr ∈ w.nodes)
    (hle : w.visited.length ≤ w'.visited.length) : w'.visited = w.visited := by
  have hsubset : w'.visited ⊆ w.visited :=
    fun addr haddr => mem_visited.2 (hsub addr (mem_visited.1 haddr))
  have hperm : w'.visited.Perm w.visited :=
    (List.subperm_of_subset nodup_visited hsubset).perm_of_length_le hle
  refine hperm.eq_of_pairwise (fun a b _ _ hab hba => ?_) Std.ExtTreeMap.ordered_keys
    Std.ExtTreeMap.ordered_keys
  have hswap : compare a b = (compare b a).swap := Std.OrientedCmp.eq_swap
  rw [hab, hba] at hswap
  cases hswap

/-- A walk visits no more instructions than its budget allows. If nothing is left in its queue, it has
visited the least complete set, and entries in another order or number give the same nodes, with their
widths and whether they are terminal, and the same edges in some order. -/
theorem isLeast_visited (r : Registry) (tier : Tier) (img : Image) (entries : List UInt32)
    (budget : Nat) :
    let w := fromEntries r tier img entries budget
    w.visited.length ≤ budget ∧ (w.pending = [] →
      IsLeast {s | Complete r tier img entries s} {addr | addr ∈ w.visited} ∧
      ∀ entries', (∀ addr, addr ∈ entries' ↔ addr ∈ entries) →
        (fromEntries r tier img entries' budget).nodes = w.nodes ∧
        (fromEntries r tier img entries' budget).edges.toList.Perm w.edges.toList) := by
  intro w
  have hle : w.visited.length ≤ budget := length_visited_fromEntries.1
  refine ⟨hle, fun hpending => ?_⟩
  have hcomplete := (closed_fromEntries hpending).complete
  refine ⟨⟨hcomplete, fun s hs addr haddr => ?_⟩, fun entries' hentries => ?_⟩
  · exact rooted_fromEntries.subset hs (mem_visited.1 haddr)
  · have hsub : ∀ addr ∈ (fromEntries r tier img entries' budget).nodes, addr ∈ w.nodes :=
      fun addr haddr => mem_visited.1 (rooted_fromEntries.subset (hcomplete.congr hentries) haddr)
    apply rooted_fromEntries.eq_of_visited rooted_fromEntries
    by_cases hpending' : (fromEntries r tier img entries' budget).pending = []
    · have hcomplete' := (closed_fromEntries hpending').complete.congr fun addr => (hentries addr).symm
      refine visited_eq_of_subset hsub (List.Subperm.length_le ?_)
      exact List.subperm_of_subset nodup_visited fun addr haddr =>
        rooted_fromEntries.subset hcomplete' (mem_visited.1 haddr)
    -- The other walk can only stop early once it has visited as many instructions as this one may.
    · have hfull := length_visited_fromEntries.2 hpending'
      exact visited_eq_of_subset hsub (hle.trans hfull.ge)

theorem isLeast_visited_loop :
    let img := Image.ofBytes 0x1000 [0x4E, 0x71, 0x60, 0xFC]
    let entries := [0x1000, 0x1002]
    let w := fromEntries .full .c img entries 3
    let w' := fromEntries .full .c img [0x1002, 0x1000, 0x1002] 3
    w.pending = [] ∧ w.visited = [0x1000, 0x1002] ∧
      IsLeast {s | Complete .full .c img entries s} {addr | addr ∈ w.visited} ∧
      w'.nodes = w.nodes ∧ w'.edges.toList.Perm w.edges.toList := by
  intro img entries w w'
  have hwalk : (w.pending, w.visited) = ([], [0x1000, 0x1002]) :=
    of_extendIn? (fun w => (w.pending, w.visited)) 10 (by decide)
  obtain ⟨hpending, hvisited⟩ := Prod.mk.inj hwalk
  obtain ⟨hleast, horder⟩ := (isLeast_visited .full .c img entries 3).2 hpending
  exact ⟨hpending, hvisited, hleast, horder [0x1002, 0x1000, 0x1002] (by simp [entries, or_comm])⟩

end Walk

end ColdFire
