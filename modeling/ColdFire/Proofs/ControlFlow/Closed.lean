import ColdFire.ControlFlow.Walk
import ColdFire.Proofs.Execution.Undo
import ColdFire.Proofs.Memory.Image
import ColdFire.Proofs.Registry.Decoded

namespace ColdFire

namespace Decoded

variable {d : Decoded} {flow : Flow}

theorem target_mem_edges {kind : EdgeKind} {target : UInt32} (hkind : flow.edgeKind? = some kind)
    (htarget : d.staticTarget? = some target) : ⟨d.address, target, kind⟩ ∈ d.edges flow := by
  unfold edges
  rw [hkind, htarget]
  dsimp only
  split
  · exact List.mem_append_left _ (List.mem_singleton.mpr rfl)
  · exact List.mem_singleton.mpr rfl

theorem fallThrough_mem_edges (h : flow.fallsThrough = true) :
    ⟨d.address, d.nextAddress, .fallThrough⟩ ∈ d.edges flow := by
  unfold edges
  rw [if_pos h]
  exact List.mem_append_right _ (List.mem_singleton.mpr rfl)

end Decoded

namespace WordSource

theorem ofBus_eq_ok {β : Type} [Bus β] {bus : β} {addr : UInt32} {source : WordSource} :
    ofBus bus addr = .ok source ↔
      ∃ word, fetch bus .word addr = .ok word ∧ inMemory bus word.toUInt16 addr = source := by
  unfold ofBus
  cases fetch bus .word addr with
  | error t => exact ⟨nofun, fun ⟨_, h, _⟩ => nomatch h⟩
  | ok word =>
    constructor
    · rintro ⟨⟩
      exact ⟨word, rfl, rfl⟩
    · rintro ⟨_, ⟨⟩, rfl⟩
      rfl

end WordSource

namespace Walk

variable {r : Registry} {tier : Tier} {img : Image} {entries queue : List UInt32} {w : Walk}
  {addr : UInt32} {budget : Nat}

/-- An instruction has its opcode word and the words that it is decoded from in the image. -/
theorem instructionAt?_eq_some {flow : Flow} {d : Decoded} :
    instructionAt? r tier img addr = some (flow, d) ↔
      ∃ source x c, WordSource.ofBus img addr = .ok source ∧
        r.lookup source.opcode tier = some x ∧ x.1.decode source .start = .ok d c ∧
        x.1.flow = flow := by
  unfold instructionAt?
  constructor
  · intro h
    split at h
    · cases h
    · rename_i source hsource
      split at h
      · cases h
      · rename_i definition i hlookup
        split at h
        · rename_i c hdecode
          cases h
          exact ⟨source, _, c, hsource, hlookup, hdecode, rfl⟩
        · cases h
  · rintro ⟨source, x, c, hsource, hlookup, hdecode, rfl⟩
    rw [hsource]
    dsimp only
    rw [hlookup]
    dsimp only
    rw [hdecode]

theorem address_of_instructionAt? {flow : Flow} {d : Decoded}
    (h : instructionAt? r tier img addr = some (flow, d)) : d.address = addr := by
  obtain ⟨source, x, c, hsource, -, hdecode, -⟩ := instructionAt?_eq_some.1 h
  obtain ⟨word, -, rfl⟩ := WordSource.ofBus_eq_ok.1 hsource
  exact (Definition.read_of_decode hdecode).2.1

theorem instructionAt?_of_unmapped (h : img.isMapped addr = false) :
    instructionAt? r tier img addr = none := by
  rw [Option.eq_none_iff_forall_ne_some]
  rintro ⟨flow, d⟩ hsome
  obtain ⟨source, -, -, hsource, -⟩ := instructionAt?_eq_some.1 hsome
  obtain ⟨word, hfetch, -⟩ := WordSource.ofBus_eq_ok.1 hsource
  obtain ⟨bs, hlen, hget, -⟩ := Image.read_eq_ok.1 (fetch_eq_ok.1 hfetch)
  have hlen : bs.length = 2 := hlen
  have hfirst := hget 0 (by omega)
  rw [show addr + UInt32.ofNat 0 = addr from UInt32.add_zero _] at hfirst
  rw [Image.isMapped, Std.ExtTreeMap.contains_eq_isSome_getElem?] at h
  unfold Image.get? at hfirst
  rw [hfirst] at h
  cases h

theorem not_mem_empty : addr ∉ ({} : Walk).nodes := Std.ExtTreeMap.not_mem_empty

/-- There is nothing left to do about an address: it was visited, or there is no instruction, or it
waits in the queue. -/
def Covered (r : Registry) (tier : Tier) (img : Image) (queue : List UInt32) (w : Walk)
    (addr : UInt32) : Prop :=
  addr ∈ w.nodes ∨ instructionAt? r tier img addr = none ∨ addr ∈ queue

/-- What is known of a visited address: its instruction and its length, and all edges out of it, none
of which leads to where something is left to do. -/
structure Explored (r : Registry) (tier : Tier) (img : Image) (queue : List UInt32) (w : Walk)
    (addr : UInt32) (node : Node) (flow : Flow) (d : Decoded) : Prop where
  instruction : instructionAt? r tier img addr = some (flow, d)
  width : node.width = UInt32.ofNat d.length
  edges : ∀ e ∈ d.edges flow, e ∈ w.edges
  targets : ∀ e ∈ d.edges flow, Covered r tier img queue w e.target

/-- The invariant of the walk: its entries are covered, and so is whatever the visited instructions
lead to. -/
structure Closed (r : Registry) (tier : Tier) (img : Image) (entries queue : List UInt32)
    (w : Walk) : Prop where
  entries : ∀ addr ∈ entries, Covered r tier img queue w addr
  nodes : ∀ addr node, w.nodes[addr]? = some node →
    ∃ flow d, Explored r tier img queue w addr node flow d

theorem covered_of_queued (h : img.isMapped addr = true → addr ∈ queue) :
    Covered r tier img queue w addr := by
  by_cases hmapped : img.isMapped addr = true
  · exact .inr (.inr (h hmapped))
  · exact .inr (.inl (instructionAt?_of_unmapped (Bool.eq_false_iff.mpr hmapped)))

/-- An address that is taken from the queue without a visit was visited before or is no instruction.
-/
theorem Covered.drop {a : UInt32} (h : Covered r tier img (addr :: queue) w a)
    (hdone : addr ∈ w.nodes ∨ instructionAt? r tier img addr = none) :
    Covered r tier img queue w a := by
  rcases h with hnode | hnone | hmem
  · exact .inl hnode
  · exact .inr (.inl hnone)
  · rcases List.mem_cons.mp hmem with rfl | hrest
    · exact hdone.elim .inl fun h => .inr (.inl h)
    · exact .inr (.inr hrest)

theorem Closed.drop (h : Closed r tier img entries (addr :: queue) w)
    (hdone : addr ∈ w.nodes ∨ instructionAt? r tier img addr = none) :
    Closed r tier img entries queue w where
  entries a ha := (h.entries a ha).drop hdone
  nodes a node hnode := by
    obtain ⟨flow, d, hexplored⟩ := h.nodes a node hnode
    exact ⟨flow, d, { hexplored with
      targets := fun e he => (hexplored.targets e he).drop hdone }⟩

section Visit

variable {flow : Flow} {d : Decoded}

theorem getElem?_visit (hd : d.address = addr) (a : UInt32) : (w.visit flow d).nodes[a]? =
    if a = addr then some ⟨UInt32.ofNat d.length, !flow.fallsThrough⟩ else w.nodes[a]? := by
  subst hd
  have hinsert : (w.visit flow d).nodes[a]? = if compare d.address a = .eq
      then some ⟨UInt32.ofNat d.length, !flow.fallsThrough⟩ else w.nodes[a]? :=
    Std.ExtTreeMap.getElem?_insert
  rw [hinsert]
  by_cases h : a = d.address
  · rw [if_pos h, if_pos (Std.LawfulEqCmp.compare_eq_iff_eq.mpr h.symm)]
  · rw [if_neg h, if_neg fun heq => h (Std.LawfulEqCmp.compare_eq_iff_eq.mp heq).symm]

theorem mem_nodes_visit (hd : d.address = addr) {a : UInt32} :
    a ∈ (w.visit flow d).nodes ↔ a = addr ∨ a ∈ w.nodes := by
  rw [Std.ExtTreeMap.mem_iff_isSome_getElem?, getElem?_visit hd,
    Std.ExtTreeMap.mem_iff_isSome_getElem?]
  by_cases h : a = addr <;> simp [h]

theorem mem_edges_visit {e : Edge} : e ∈ (w.visit flow d).edges ↔ e ∈ w.edges ∨ e ∈ d.edges flow := by
  change e ∈ w.edges ++ d.edges flow ↔ _
  rw [← Array.mem_toList_iff, Array.toList_appendList, List.mem_append, Array.mem_toList_iff]

theorem Covered.visit {a : UInt32} (h : Covered r tier img (addr :: queue) w a)
    (hd : d.address = addr) (more : List UInt32) :
    Covered r tier img (queue ++ more) (w.visit flow d) a := by
  rcases h with hnode | hnone | hmem
  · exact .inl ((mem_nodes_visit hd).2 (.inr hnode))
  · exact .inr (.inl hnone)
  · rcases List.mem_cons.mp hmem with rfl | hrest
    · exact .inl ((mem_nodes_visit hd).2 (.inl rfl))
    · exact .inr (.inr (List.mem_append_left _ hrest))

theorem Closed.visit (h : Closed r tier img entries (addr :: queue) w)
    (hinstruction : instructionAt? r tier img addr = some (flow, d)) :
    Closed r tier img entries
      (queue ++ ((d.edges flow).map (·.target)).filter img.isMapped) (w.visit flow d) := by
  have hd := address_of_instructionAt? hinstruction
  refine ⟨fun a ha => (h.entries a ha).visit hd _, fun a node hnode => ?_⟩
  rw [getElem?_visit hd] at hnode
  split at hnode
  · rename_i ha
    subst ha
    cases hnode
    refine ⟨flow, d, hinstruction, rfl, fun e he => mem_edges_visit.2 (.inr he), ?_⟩
    intro e he
    refine covered_of_queued fun hmapped => List.mem_append_right _ ?_
    exact List.mem_filter.mpr ⟨List.mem_map_of_mem he, hmapped⟩
  · obtain ⟨flow', d', hexplored⟩ := h.nodes a node hnode
    refine ⟨flow', d', hexplored.instruction, hexplored.width, ?_, ?_⟩
    · exact fun e he => mem_edges_visit.2 (.inl (hexplored.edges e he))
    · exact fun e he => (hexplored.targets e he).visit hd _

end Visit

/-- Once the queue is empty there is nothing left to do. -/
theorem Closed.extend (h : Closed r tier img entries queue w)
    (hpending : (extend r tier img budget queue w).pending = []) :
    Closed r tier img entries [] (extend r tier img budget queue w) := by
  induction budget, queue, w using extend.induct r tier img with
  | case1 budget w =>
    rw [Walk.extend]
    exact h
  | case2 w addr rest =>
    rw [Walk.extend] at hpending
    cases hpending
  | case3 w addr rest budget hseen ih =>
    rw [Walk.extend, if_pos hseen] at hpending ⊢
    exact ih (h.drop (.inl (Std.ExtTreeMap.mem_iff_contains.2 hseen))) hpending
  | case4 w addr rest budget hseen hnone ih =>
    rw [Walk.extend, if_neg hseen, hnone] at hpending ⊢
    exact ih (h.drop (.inr hnone)) hpending
  | case5 w addr rest budget hseen flow d hsome targets ih =>
    rw [Walk.extend, if_neg hseen, hsome] at hpending ⊢
    exact ih (h.visit hsome) hpending

theorem closed_fromEntries (h : (fromEntries r tier img entries budget).pending = []) :
    Closed r tier img entries [] (fromEntries r tier img entries budget) := by
  refine Closed.extend ⟨fun addr haddr => ?_, fun addr node hnode => ?_⟩ h
  · exact covered_of_queued fun hmapped => List.mem_filter.mpr ⟨haddr, hmapped⟩
  · cases Std.ExtTreeMap.getElem?_empty.symm.trans hnode

end Walk

end ColdFire
