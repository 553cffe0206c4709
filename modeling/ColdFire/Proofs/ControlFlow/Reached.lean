import ColdFire.Proofs.ControlFlow.Closed
import Mathlib.Logic.Relation

namespace ColdFire

namespace Edge

def Leads (edges : List Edge) (a b : UInt32) : Prop :=
  ∃ e ∈ edges, e.source = a ∧ e.target = b

abbrev Reaches (edges : List Edge) : UInt32 → UInt32 → Prop :=
  Relation.ReflTransGen (Leads edges)

variable {edges edges' : List Edge} {a b : UInt32}

theorem leads_of_mem {e : Edge} (h : e ∈ edges) : Leads edges e.source e.target :=
  ⟨e, h, rfl, rfl⟩

theorem Leads.mono (h : Leads edges a b) (hsub : ∀ e ∈ edges, e ∈ edges') : Leads edges' a b := by
  obtain ⟨e, he, rfl, rfl⟩ := h
  exact leads_of_mem (hsub e he)

theorem Reaches.mono (h : Reaches edges a b) (hsub : ∀ e ∈ edges, e ∈ edges') :
    Reaches edges' a b := by
  induction h with
  | refl => exact .refl
  | tail _ hleads ih => exact ih.tail (hleads.mono hsub)

end Edge

namespace Decoded

variable {d : Decoded} {flow : Flow} {e : Edge}

def node (d : Decoded) (flow : Flow) : Node := ⟨UInt32.ofNat d.length, !flow.fallsThrough⟩

theorem mem_edges : e ∈ d.edges flow ↔
    (∃ kind target, flow.edgeKind? = some kind ∧ d.staticTarget? = some target ∧
      e = ⟨d.address, target, kind⟩) ∨
    flow.fallsThrough = true ∧ e = ⟨d.address, d.nextAddress, .fallThrough⟩ := by
  unfold edges
  cases flow.edgeKind? <;> cases d.staticTarget? <;> cases flow.fallsThrough <;> simp

theorem source_of_mem_edges (h : e ∈ d.edges flow) : e.source = d.address := by
  obtain ⟨kind, target, -, -, rfl⟩ | ⟨-, rfl⟩ := mem_edges.1 h
  · rfl
  · rfl

end Decoded

namespace Walk

variable {r : Registry} {tier : Tier} {img : Image} {entries queue : List UInt32} {w : Walk}
  {addr : UInt32} {budget : Nat}

def edgesAt (r : Registry) (tier : Tier) (img : Image) (addr : UInt32) : List Edge :=
  match instructionAt? r tier img addr with
  | none => []
  | some (flow, d) => d.edges flow

theorem edgesAt_of_some {flow : Flow} {d : Decoded}
    (h : instructionAt? r tier img addr = some (flow, d)) :
    edgesAt r tier img addr = d.edges flow := by
  rw [edgesAt, h]

theorem source_of_mem_edgesAt {e : Edge} (h : e ∈ edgesAt r tier img addr) : e.source = addr := by
  cases hsome : instructionAt? r tier img addr with
  | none =>
    rw [edgesAt, hsome] at h
    cases h
  | some x =>
    obtain ⟨flow, d⟩ := x
    rw [edgesAt_of_some hsome] at h
    rw [Decoded.source_of_mem_edges h, address_of_instructionAt? hsome]

theorem mem_visited : addr ∈ w.visited ↔ addr ∈ w.nodes := Std.ExtTreeMap.mem_keys

theorem nodup_visited : w.visited.Nodup := Std.ExtTreeMap.nodup_keys

theorem exists_node {nodes : NodeMap} (h : addr ∈ nodes) : ∃ node, nodes[addr]? = some node :=
  Option.isSome_iff_exists.1 (Std.ExtTreeMap.mem_iff_isSome_getElem?.1 h)

theorem mem_of_node {nodes : NodeMap} {node : Node} (h : nodes[addr]? = some node) : addr ∈ nodes :=
  Std.ExtTreeMap.mem_iff_isSome_getElem?.2 (h ▸ rfl)

/-- What the nodes and the edges of a walk are at any time, and where the addresses in its queue come
from. -/
structure Rooted (r : Registry) (tier : Tier) (img : Image) (entries queue : List UInt32)
    (w : Walk) : Prop where
  nodes : ∀ addr node, w.nodes[addr]? = some node →
    ∃ flow d, instructionAt? r tier img addr = some (flow, d) ∧ node = d.node flow
  edges : w.edges.toList.Perm (w.visited.flatMap (edgesAt r tier img))
  roots : ∀ addr ∈ w.nodes, ∃ entry ∈ entries, entry ∈ w.nodes ∧
    Edge.Reaches w.edges.toList entry addr
  queued : ∀ addr ∈ queue, addr ∈ entries ∨ ∃ e ∈ w.edges, e.target = addr

theorem Rooted.mem_edges (h : Rooted r tier img entries queue w) {e : Edge} :
    e ∈ w.edges ↔ e.source ∈ w.nodes ∧ e ∈ edgesAt r tier img e.source := by
  rw [← Array.mem_toList_iff, h.edges.mem_iff, List.mem_flatMap]
  constructor
  · rintro ⟨addr, hvisited, he⟩
    obtain rfl := source_of_mem_edgesAt he
    exact ⟨mem_visited.1 hvisited, he⟩
  · exact fun ⟨hsource, he⟩ => ⟨e.source, mem_visited.2 hsource, he⟩

theorem Rooted.drop (h : Rooted r tier img entries (addr :: queue) w) :
    Rooted r tier img entries queue w :=
  { h with queued := fun a ha => h.queued a (List.mem_cons_of_mem _ ha) }

section Visit

variable {flow : Flow} {d : Decoded}

theorem toList_edges_visit : (w.visit flow d).edges.toList = w.edges.toList ++ d.edges flow :=
  Array.toList_appendList

theorem visited_visit (hd : d.address = addr) (hnew : addr ∉ w.nodes) :
    (w.visit flow d).visited.Perm (addr :: w.visited) := by
  have hnodup : (addr :: w.visited).Nodup :=
    List.nodup_cons.mpr ⟨hnew ∘ mem_visited.1, nodup_visited⟩
  rw [List.perm_ext_iff_of_nodup nodup_visited hnodup]
  intro a
  rw [mem_visited, mem_nodes_visit hd, List.mem_cons, mem_visited]

theorem length_visit (hd : d.address = addr) (hnew : addr ∉ w.nodes) :
    (w.visit flow d).visited.length = w.visited.length + 1 := by
  rw [(visited_visit hd hnew).length_eq, List.length_cons]

theorem Rooted.visit (h : Rooted r tier img entries (addr :: queue) w) (hnew : addr ∉ w.nodes)
    (hinstruction : instructionAt? r tier img addr = some (flow, d)) :
    Rooted r tier img entries (queue ++ ((d.edges flow).map (·.target)).filter img.isMapped)
      (w.visit flow d) := by
  have hd := address_of_instructionAt? hinstruction
  have hmore : ∀ e ∈ w.edges.toList, e ∈ (w.visit flow d).edges.toList := by
    intro e he
    rw [toList_edges_visit]
    exact List.mem_append_left _ he
  refine ⟨fun a node hnode => ?_, ?_, fun a ha => ?_, fun a ha => ?_⟩
  · rw [getElem?_visit hd] at hnode
    split at hnode
    · rename_i heq
      cases hnode
      exact ⟨flow, d, heq ▸ hinstruction, rfl⟩
    · exact h.nodes a node hnode
  · rw [toList_edges_visit, ← edgesAt_of_some hinstruction]
    calc List.Perm (w.edges.toList ++ edgesAt r tier img addr)
          (edgesAt r tier img addr ++ w.edges.toList) := List.perm_append_comm
      List.Perm _ (edgesAt r tier img addr ++ w.visited.flatMap (edgesAt r tier img)) :=
        h.edges.append_left _
      List.Perm _ ((w.visit flow d).visited.flatMap (edgesAt r tier img)) :=
        ((visited_visit hd hnew).flatMap_right _).symm
  · -- an older node keeps its path; the new one continues the path to where its edge starts
    have hold (a : UInt32) (ha : a ∈ w.nodes) : ∃ entry ∈ entries,
        entry ∈ (w.visit flow d).nodes ∧ Edge.Reaches (w.visit flow d).edges.toList entry a := by
      obtain ⟨entry, hentry, hvisited, hreaches⟩ := h.roots a ha
      exact ⟨entry, hentry, (mem_nodes_visit hd).2 (.inr hvisited), hreaches.mono hmore⟩
    obtain rfl | ha := (mem_nodes_visit hd).1 ha
    · obtain hentry | ⟨e, he, rfl⟩ := h.queued a List.mem_cons_self
      · exact ⟨a, hentry, (mem_nodes_visit hd).2 (.inl rfl), .refl⟩
      · obtain ⟨entry, hentry, hvisited, hreaches⟩ := hold _ (h.mem_edges.1 he).1
        have hleads := Edge.leads_of_mem (hmore e (Array.mem_toList_iff.2 he))
        exact ⟨entry, hentry, hvisited, hreaches.tail hleads⟩
    · exact hold a ha
  · obtain ha | ha := List.mem_append.mp ha
    · obtain hentry | ⟨e, he, htarget⟩ := h.queued a (List.mem_cons_of_mem _ ha)
      · exact .inl hentry
      · exact .inr ⟨e, mem_edges_visit.2 (.inl he), htarget⟩
    · obtain ⟨e, he, htarget⟩ := List.mem_map.mp (List.mem_filter.mp ha).1
      exact .inr ⟨e, mem_edges_visit.2 (.inr he), htarget⟩

end Visit

theorem Rooted.extend (h : Rooted r tier img entries queue w) :
    Rooted r tier img entries [] (extend r tier img budget queue w) := by
  induction budget, queue, w using extend.induct r tier img with
  | case1 budget w =>
    rw [Walk.extend]
    exact h
  | case2 w addr rest =>
    rw [Walk.extend]
    exact ⟨h.nodes, h.edges, h.roots, fun _ hmem => absurd hmem List.not_mem_nil⟩
  | case3 w addr rest budget hseen ih =>
    rw [Walk.extend, if_pos hseen]
    exact ih h.drop
  | case4 w addr rest budget hseen hnone ih =>
    rw [Walk.extend, if_neg hseen, hnone]
    exact ih h.drop
  | case5 w addr rest budget hseen flow d hsome targets ih =>
    rw [Walk.extend, if_neg hseen, hsome]
    exact ih (h.visit (hseen ∘ Std.ExtTreeMap.mem_iff_contains.1) hsome)

theorem rooted_fromEntries :
    Rooted r tier img entries [] (fromEntries r tier img entries budget) := by
  refine Rooted.extend ⟨fun addr node hnode => ?_, ?_, fun addr haddr => ?_, fun addr haddr => ?_⟩
  · exact absurd (mem_of_node hnode) not_mem_empty
  · exact .refl _
  · exact absurd haddr not_mem_empty
  · exact .inl (List.mem_filter.mp haddr).1

/-- A walk visits as many instructions as its budget allows, and all of these if addresses are left.
-/
theorem length_visited_extend (hpending : w.pending = []) :
    (extend r tier img budget queue w).visited.length ≤ w.visited.length + budget ∧
      ((extend r tier img budget queue w).pending ≠ [] →
        (extend r tier img budget queue w).visited.length = w.visited.length + budget) := by
  induction budget, queue, w using extend.induct r tier img with
  | case1 budget w =>
    rw [Walk.extend]
    exact ⟨Nat.le_add_right _ _, fun h => absurd hpending h⟩
  | case2 w addr rest =>
    rw [Walk.extend]
    exact ⟨Nat.le_refl _, fun _ => rfl⟩
  | case3 w addr rest budget hseen ih =>
    rw [Walk.extend, if_pos hseen]
    exact ih hpending
  | case4 w addr rest budget hseen hnone ih =>
    rw [Walk.extend, if_neg hseen, hnone]
    exact ih hpending
  | case5 w addr rest budget hseen flow d hsome targets ih =>
    rw [Walk.extend, if_neg hseen, hsome]
    have hnew : addr ∉ w.nodes := hseen ∘ Std.ExtTreeMap.mem_iff_contains.1
    have hsize : (w.visit flow d).visited.length + budget = w.visited.length + (budget + 1) := by
      rw [length_visit (address_of_instructionAt? hsome) hnew]
      omega
    rw [← hsize]
    exact ih hpending

theorem length_visited_fromEntries :
    (fromEntries r tier img entries budget).visited.length ≤ budget ∧
      ((fromEntries r tier img entries budget).pending ≠ [] →
        (fromEntries r tier img entries budget).visited.length = budget) := by
  obtain ⟨hle, hfull⟩ : _ ∧ ((fromEntries r tier img entries budget).pending ≠ [] → _) :=
    length_visited_extend rfl
  exact ⟨hle.trans_eq (Nat.zero_add budget), fun h => (hfull h).trans (Nat.zero_add budget)⟩

end Walk

end ColdFire
