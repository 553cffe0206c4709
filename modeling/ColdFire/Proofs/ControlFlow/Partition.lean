import ColdFire.Proofs.ControlFlow.Computed
import ColdFire.Proofs.ControlFlow.Cut

namespace ColdFire

theorem Flow.edgeKind?_ne_fallThrough {flow : Flow} : flow.edgeKind? ≠ some .fallThrough := by
  cases flow <;> nofun

namespace Walk

variable {r : Registry} {tier : Tier} {img : Image} {entries queue : List UInt32} {w : Walk}
  {addr limit : UInt32} {members : List UInt32} {node : Node}

theorem mem_branching : addr ∈ w.branching ↔
    ∃ e ∈ w.edges, e.kind ≠ .fallThrough ∧ e.source = addr := by
  rw [branching, Std.ExtTreeSet.mem_ofList, List.contains_iff_mem, List.mem_map]
  simp only [List.mem_filter, Array.mem_toList_iff, decide_eq_true_eq, and_assoc]

theorem mem_starts : addr ∈ w.starts entries ↔ addr ∈ entries ∨
    ∃ e ∈ w.edges, (e.kind ≠ .fallThrough ∨ e.source ∈ w.branching) ∧ e.target = addr := by
  rw [starts, Std.ExtTreeSet.mem_ofList, List.contains_iff_mem, List.mem_append, List.mem_map]
  simp only [List.mem_filter, Array.mem_toList_iff, decide_eq_true_eq, and_assoc,
    Std.ExtTreeSet.mem_iff_contains]

theorem mem_terminators : addr ∈ w.terminators ↔
    ∃ node, w.nodes[addr]? = some node ∧ node.terminal = true := by
  rw [terminators, List.mem_map]
  constructor
  · rintro ⟨⟨a, node⟩, hmem, rfl⟩
    obtain ⟨hmem, hterminal⟩ := List.mem_filter.mp hmem
    exact ⟨node, Std.ExtTreeMap.mem_toList_iff_getElem?_eq_some.1 hmem, hterminal⟩
  · rintro ⟨node, hnode, hterminal⟩
    refine ⟨(addr, node), List.mem_filter.mpr ⟨?_, hterminal⟩, rfl⟩
    exact Std.ExtTreeMap.mem_toList_iff_getElem?_eq_some.2 hnode

theorem Rooted.fallThrough_mem (h : Rooted r tier img entries queue w)
    (hnode : w.nodes[addr]? = some node) (hon : node.terminal = false) :
    ⟨addr, addr + node.width, .fallThrough⟩ ∈ w.edges := by
  obtain ⟨flow, d, hsome, rfl⟩ := h.nodes addr node hnode
  obtain rfl := address_of_instructionAt? hsome
  have hedge := Decoded.fallThrough_mem_edges (d := d) ((Bool.not_eq_false' _).mp hon)
  exact h.mem_edges.2 ⟨mem_of_node hnode, edgesAt_of_some hsome ▸ hedge⟩

theorem Rooted.of_fallThrough_mem (h : Rooted r tier img entries queue w) {e : Edge}
    (he : e ∈ w.edges) (hkind : e.kind = .fallThrough) :
    ∃ node, w.nodes[e.source]? = some node ∧ node.terminal = false ∧
      e.source + node.width = e.target := by
  obtain ⟨hsource, he⟩ := h.mem_edges.1 he
  obtain ⟨node, hnode⟩ := exists_node hsource
  obtain ⟨flow, d, hsome, rfl⟩ := h.nodes _ node hnode
  rw [edgesAt_of_some hsome] at he
  obtain ⟨kind, target, hflow, -, rfl⟩ | ⟨hfalls, rfl⟩ := Decoded.mem_edges.1 he
  · obtain rfl : kind = .fallThrough := hkind
    exact absurd hflow Flow.edgeKind?_ne_fallThrough
  · exact ⟨_, hnode, (Bool.not_eq_false' _).mpr hfalls, rfl⟩

theorem cut_blocks (w : Walk) (entries : List UInt32) :
    Cut (w.starts entries) w.nodes (w.starts entries).toList (w.blocks entries) :=
  cut_blocksFrom fun _ ha => Std.ExtTreeSet.mem_toList.1 ha

theorem exists_block_of_start (hstart : addr ∈ w.starts entries) (hvisited : addr ∈ w.nodes) :
    ∃ b ∈ w.blocks entries, b.start = addr :=
  (cut_blocks w entries).started addr (Std.ExtTreeSet.mem_toList.2 hstart) hvisited

theorem start_mem {b : Block} (hb : b ∈ w.blocks entries) : b.start ∈ b.members :=
  ((cut_blocks w entries).runs b hb).head_mem

/-- Every visited instruction is in a block: on the path from its entry every edge leads to a start, or
from a member of a block to another. -/
theorem Rooted.exists_block (h : Rooted r tier img entries queue w) (hvisited : addr ∈ w.nodes) :
    ∃ b ∈ w.blocks entries, addr ∈ b.members := by
  have hstarts (a : UInt32) (hstart : a ∈ w.starts entries) (ha : a ∈ w.nodes) :
      ∃ b ∈ w.blocks entries, a ∈ b.members := by
    obtain ⟨b, hb, rfl⟩ := exists_block_of_start hstart ha
    exact ⟨b, hb, start_mem hb⟩
  obtain ⟨entry, hentry, hroot, hreaches⟩ := h.roots addr hvisited
  induction hreaches with
  | refl => exact hstarts entry (mem_starts.2 (.inl hentry)) hroot
  | tail _ hleads ih =>
    obtain ⟨e, he, rfl, rfl⟩ := hleads
    have he := Array.mem_toList_iff.1 he
    by_cases hstart : e.target ∈ w.starts entries
    · exact hstarts e.target hstart hvisited
    have hkind : e.kind = .fallThrough := by
      by_contra hkind
      exact hstart (mem_starts.2 (.inr ⟨e, he, .inl hkind, rfl⟩))
    obtain ⟨b, hb, hmem⟩ := ih (h.mem_edges.1 he).1
    obtain ⟨node, hnode, hon, hnext⟩ := h.of_fallThrough_mem he hkind
    exact (cut_blocks w entries).goesOn b hb e.source hmem e.target
      ⟨node, hnode, hon, hnext, hvisited, hstart⟩

theorem Rooted.members_perm (h : Rooted r tier img entries queue w) :
    ((w.blocks entries).flatMap (·.members)).Perm w.visited := by
  obtain ⟨rest, hkeys⟩ := (cut_blocks w entries).keys
  obtain rfl : rest = [] := by
    -- whatever the blocks leave over is visited, so it is in a block and would be listed twice
    rw [List.eq_nil_iff_forall_not_mem]
    intro a ha
    have hvisited := hkeys.mem_iff.2 (List.mem_append_right _ ha)
    obtain ⟨b, hb, hmem⟩ := h.exists_block (mem_visited.1 hvisited)
    have hnodup := hkeys.nodup_iff.1 nodup_visited
    have hapart := (List.nodup_append.mp hnodup).2.2
    exact hapart a (List.mem_flatMap.mpr ⟨b, hb, hmem⟩) a ha rfl
  rw [List.append_nil] at hkeys
  exact hkeys.symm

/-- An instruction that is not the last of its block does not branch: it would make the one behind
it a start. -/
theorem Rooted.not_mem_branching (h : Rooted r tier img entries queue w) {b : Block}
    (hb : b ∈ w.blocks entries) (ha : addr ∈ b.members.dropLast) :
    addr ∉ w.terminators ∧ addr ∉ w.branching := by
  obtain ⟨node, hnode, hon, hinner⟩ := ((cut_blocks w entries).runs b hb).inner ha
  constructor
  · intro hterminal
    obtain ⟨node', hnode', hterminal⟩ := mem_terminators.1 hterminal
    cases hnode.symm.trans hnode'
    cases hon.symm.trans hterminal
  · intro hbranching
    exact hinner (mem_starts.2 (.inr ⟨_, h.fallThrough_mem hnode hon, .inr hbranching, rfl⟩))

/-- Who follows the widths of the instructions from an address on, until a limit, comes to these. -/
inductive Spans (w : Walk) (limit : UInt32) : UInt32 → List UInt32 → Prop
  | done : Spans w limit limit []
  | next {addr : UInt32} {node : Node} {members : List UInt32} (hne : addr ≠ limit)
      (h : w.nodes[addr]? = some node) (rest : Spans w limit (addr + node.width) members) :
      Spans w limit addr (addr :: members)

theorem Runs.spans {starts : AddressSet} (h : Runs starts w.nodes limit addr members)
    (hup : ∀ (a : UInt32) (node : Node), w.nodes[a]? = some node → a < a + node.width) :
    addr < limit ∧ Spans w limit addr members := by
  induction h with
  | last h hlimit =>
    have hlt := hup _ _ h
    subst hlimit
    exact ⟨hlt, .next (UInt32.ne_of_lt hlt) h .done⟩
  | next h _ _ _ ih =>
    have hlt := UInt32.lt_trans (hup _ _ h) ih.1
    exact ⟨hlt, .next (UInt32.ne_of_lt hlt) h ih.2⟩

theorem Rooted.lt_next (h : Rooted r tier img entries queue w)
    (hwraps : ∀ addr ∈ w.visited, ∀ flow d, instructionAt? r tier img addr = some (flow, d) →
      addr.toNat + d.length < 2 ^ 32) (hnode : w.nodes[addr]? = some node) :
    addr < addr + node.width := by
  obtain ⟨flow, d, hsome, rfl⟩ := h.nodes addr node hnode
  have hlt := hwraps addr (mem_visited.2 (mem_of_node hnode)) flow d hsome
  have hlength : d.length = 2 + 2 * d.extWords := rfl
  have hwidth : (d.node flow).width.toNat = d.length := by
    change (UInt32.ofNat d.length).toNat = d.length
    rw [UInt32.toNat_ofNat']
    exact Nat.mod_eq_of_lt (by omega)
  rw [UInt32.lt_iff_toNat_lt, UInt32.toNat_add, hwidth, Nat.mod_eq_of_lt hlt]
  omega

/-- In a walk whose instructions end below the top of the address space, the widths lead from the start
of a block to its limit through its members, and each visited instruction is a member of one block.
Only the last member of a block may be terminal or branch, and a visited entry or target of a branch is
where a block starts. -/
theorem blocks_partition (r : Registry) (tier : Tier) (img : Image) (entries : List UInt32)
    (budget : Nat) :
    let w := fromEntries r tier img entries budget
    let blocks := (Report.ofWalk w entries).blocks
    (∀ addr ∈ w.visited, ∀ flow d, instructionAt? r tier img addr = some (flow, d) →
      addr.toNat + d.length < 2 ^ 32) →
    (∀ b ∈ blocks, b.members ≠ [] ∧ Spans w b.limit b.start b.members ∧
      ∀ addr ∈ b.members.dropLast, addr ∉ w.terminators ∧
        ∀ e ∈ w.edges, e.source = addr → e.kind = .fallThrough) ∧
    (blocks.flatMap (·.members)).Perm w.visited ∧
    ∀ addr ∈ w.visited, (addr ∈ entries ∨ ∃ e ∈ w.edges, e.kind ≠ .fallThrough ∧ e.target = addr) →
      ∃ b ∈ blocks, b.start = addr := by
  intro w blocks hwraps
  have hrooted : Rooted r tier img entries [] w := rooted_fromEntries
  refine ⟨fun b hb => ?_, hrooted.members_perm, fun addr hvisited hstart => ?_⟩
  · have hruns := (cut_blocks w entries).runs b hb
    refine ⟨List.ne_nil_of_mem hruns.head_mem, ?_, fun addr haddr => ?_⟩
    · exact (hruns.spans fun a node hnode => hrooted.lt_next hwraps hnode).2
    · obtain ⟨hterminal, hbranching⟩ := hrooted.not_mem_branching hb haddr
      refine ⟨hterminal, fun e he hsource => ?_⟩
      by_contra hkind
      exact hbranching (mem_branching.2 ⟨e, he, hkind, hsource⟩)
  · refine exists_block_of_start (mem_starts.2 (hstart.imp_right ?_)) (mem_visited.1 hvisited)
    rintro ⟨e, he, hkind, htarget⟩
    exact ⟨e, he, .inl hkind, htarget⟩

theorem blocks_partition_loop :
    let img := Image.ofBytes 0x1000 [0x4E, 0x71, 0x67, 0xFC, 0x4E, 0x75]
    let w := fromEntries .full .c img [0x1000] 10
    let blocks := (Report.ofWalk w [0x1000]).blocks
    blocks = [⟨0x1000, 0x1004, [0x1000, 0x1002]⟩, ⟨0x1004, 0x1006, [0x1004]⟩] ∧
      w.terminators = [0x1004] ∧ w.visited = [0x1000, 0x1002, 0x1004] ∧
      (∀ addr ∈ w.visited, ∀ flow d, instructionAt? .full .c img addr = some (flow, d) →
        addr.toNat + d.length < 2 ^ 32) ∧
      (∀ b ∈ blocks, Spans w b.limit b.start b.members) ∧
      (blocks.flatMap (·.members)).Perm w.visited ∧ ∃ b ∈ blocks, b.start = 0x1000 := by
  intro img w blocks
  have hwalk : (w.visited, w.terminators, blocks) = ([0x1000, 0x1002, 0x1004], [0x1004],
      [⟨0x1000, 0x1004, [0x1000, 0x1002]⟩, ⟨0x1004, 0x1006, [0x1004]⟩]) :=
    of_extendIn? (fun w => (w.visited, w.terminators, (Report.ofWalk w [0x1000]).blocks)) 10
      (by decide +kernel)
  obtain ⟨hvisited, hwalk⟩ := Prod.mk.inj hwalk
  obtain ⟨hterminators, hblocks⟩ := Prod.mk.inj hwalk
  have hwraps : ∀ addr ∈ w.visited, ∀ flow d, instructionAt? .full .c img addr = some (flow, d) →
      addr.toNat + d.length < 2 ^ 32 := by
    have hall : [0x1000, 0x1002, 0x1004].all (fun addr =>
        (instructionAt? .unsorted .c img addr).all fun x =>
          decide (addr.toNat + x.2.length < 2 ^ 32)) = true := by decide +kernel
    intro addr haddr flow d hsome
    have hone := List.all_eq_true.mp hall addr (hvisited ▸ haddr)
    rw [instructionAt?_unsorted, hsome] at hone
    exact of_decide_eq_true hone
  obtain ⟨hspans, hperm, hstarts⟩ := blocks_partition .full .c img [0x1000] 10 hwraps
  have hfirst := hstarts 0x1000 (hvisited ▸ List.mem_cons_self) (.inl List.mem_cons_self)
  exact ⟨hblocks, hterminators, hvisited, hwraps, fun b hb => (hspans b hb).2.1, hperm, hfirst⟩

end Walk

end ColdFire
