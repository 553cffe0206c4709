import ColdFire.Proofs.ControlFlow.Partition
import Mathlib.Data.List.Nodup

namespace ColdFire

namespace Edge

variable {edges : List Edge} {a b : UInt32}

theorem eq_of_reaches (h : Reaches edges a b) (hnone : ∀ e ∈ edges, e.source ≠ a) : b = a := by
  obtain heq | ⟨c, ⟨e, he, hsource, -⟩, -⟩ := Relation.ReflTransGen.cases_head h
  · exact heq.symm
  · exact absurd hsource (hnone e he)

end Edge

namespace Report

variable {edges : List Edge} {queue : List UInt32} {seen : AddressSet} {a b addr : UInt32}

theorem mem_leaving {e : Edge} : e ∈ leaving addr edges ↔ e ∈ edges ∧ e.source = addr := by
  simp [leaving]

theorem mem_notLeaving {e : Edge} : e ∈ notLeaving addr edges ↔ e ∈ edges ∧ e.source ≠ addr := by
  simp [notLeaving]

/-- A path need not come back to an address: it avoids it, or its last visit there is the start of a
path that does. -/
theorem reaches_notLeaving (h : Edge.Reaches edges a b) (addr : UInt32) :
    Edge.Reaches (notLeaving addr edges) a b ∨ b = addr ∨
      ∃ e ∈ leaving addr edges, Edge.Reaches (notLeaving addr edges) e.target b := by
  -- on the path from its start: an edge out of `addr` starts the path to keep anew
  induction h with
  | refl => exact .inl .refl
  | tail _ hleads ih =>
    obtain ⟨e, he, rfl, rfl⟩ := hleads
    by_cases hsource : e.source = addr
    · exact .inr (.inr ⟨e, mem_leaving.2 ⟨he, hsource⟩, .refl⟩)
    have hlast := Edge.leads_of_mem (mem_notLeaving.2 ⟨he, hsource⟩)
    rcases ih with hpath | heq | ⟨e', he', hpath⟩
    · exact .inl (hpath.tail hlast)
    · exact absurd heq hsource
    · exact .inr (.inr ⟨e', he', hpath.tail hlast⟩)

/-- One turn of the search: what paths lead to from an address and from the others is the address, and
what paths lead to from the others and from behind it, without its edges. -/
theorem exists_reaches_cons {rest : List UInt32} :
    (∃ q ∈ addr :: rest, Edge.Reaches edges q a) ↔ a = addr ∨
      ∃ q ∈ rest ++ (leaving addr edges).map (·.target),
        Edge.Reaches (notLeaving addr edges) q a := by
  constructor
  · rintro ⟨q, hq, hpath⟩
    rcases reaches_notLeaving hpath addr with hpath | heq | ⟨e, he, hpath⟩
    · obtain rfl | hq := List.mem_cons.mp hq
      · exact .inl (Edge.eq_of_reaches hpath fun e he => (mem_notLeaving.1 he).2)
      · exact .inr ⟨q, List.mem_append_left _ hq, hpath⟩
    · exact .inl heq
    · exact .inr ⟨e.target, List.mem_append_right _ (List.mem_map_of_mem he), hpath⟩
  · rintro (rfl | ⟨q, hq, hpath⟩)
    · exact ⟨a, List.mem_cons_self, .refl⟩
    replace hpath : Edge.Reaches edges q a := hpath.mono fun e he => (mem_notLeaving.1 he).1
    obtain hq | hq := List.mem_append.mp hq
    · exact ⟨q, List.mem_cons_of_mem _ hq, hpath⟩
    · obtain ⟨e, hleaving, rfl⟩ := List.mem_map.mp hq
      obtain ⟨he, rfl⟩ := mem_leaving.1 hleaving
      exact ⟨e.source, List.mem_cons_self, .head (Edge.leads_of_mem he) hpath⟩

/-- The search comes to what was seen and to what a path leads to from its queue, as long as the edges
out of what was seen have been used up. -/
theorem mem_reach (hused : ∀ e ∈ edges, e.source ∉ seen) :
    a ∈ reach edges queue seen ↔ a ∈ seen ∨ ∃ q ∈ queue, Edge.Reaches edges q a := by
  induction edges, queue, seen using reach.induct with
  | case1 edges seen =>
    rw [reach]
    simp
  | case2 edges seen addr rest hseen ih =>
    rw [reach, if_pos hseen, ih hused]
    have hseen := Std.ExtTreeSet.mem_iff_contains.2 hseen
    refine or_congr_right' fun hnew => ?_
    rw [List.exists_mem_cons_iff, or_iff_right]
    intro hpath
    rw [Edge.eq_of_reaches hpath fun e he hsource => hused e he (hsource ▸ hseen)] at hnew
    exact hnew hseen
  | case3 edges seen addr rest hseen ih =>
    have hinsert (x : UInt32) : x ∈ seen.insert addr ↔ x = addr ∨ x ∈ seen := by
      rw [Std.ExtTreeSet.mem_insert, Std.LawfulEqCmp.compare_eq_iff_eq, eq_comm]
    -- the edges out of `addr` are used up by this turn, so they may go
    have hused' : ∀ e ∈ notLeaving addr edges, e.source ∉ seen.insert addr := by
      intro e he hmem
      obtain ⟨he, hsource⟩ := mem_notLeaving.1 he
      exact ((hinsert _).1 hmem).elim hsource (hused e he)
    rw [reach, if_neg hseen, ih hused', hinsert, exists_reaches_cons, or_comm (a := a = addr),
      or_assoc]

theorem mem_function : a ∈ (function edges b).blocks ↔ Edge.Reaches edges b a := by
  rw [function, Std.ExtTreeSet.mem_toList, mem_reach fun _ _ => Std.ExtTreeSet.not_mem_empty]
  simp [Std.ExtTreeSet.not_mem_empty]

end Report

namespace Walk

variable {r : Registry} {tier : Tier} {img : Image} {entries queue : List UInt32} {w : Walk}
  {entry a c : UInt32} {b b' : Block} {blocks : List Block}

/-- An edge leads from outside into the midst of a block. -/
def Joins (blocks : List Block) (e : Edge) : Prop :=
  ∃ b ∈ blocks, e.target ∈ b.members ∧ e.target ≠ b.start ∧ e.source ∉ b.members

instance : DecidablePred (Joins blocks) :=
  fun e => inferInstanceAs (Decidable (∃ b ∈ blocks, e.target ∈ b.members ∧ _))

/-- The edges that do not: each goes on within a block, or can be told as one between blocks. -/
def liftable (w : Walk) (blocks : List Block) : List Edge :=
  w.edges.toList.filter fun e => ¬ Joins blocks e

theorem mem_liftable {e : Edge} : e ∈ w.liftable blocks ↔ e ∈ w.edges ∧ ¬ Joins blocks e := by
  simp [liftable]

theorem start_mem_starts (hb : b ∈ w.blocks entries) : b.start ∈ w.starts entries :=
  Std.ExtTreeSet.mem_toList.1 ((cut_blocks w entries).begins b hb)

theorem eq_start (hb : b ∈ w.blocks entries) (ha : a ∈ b.members) (hstart : a ∈ w.starts entries) :
    a = b.start := by
  by_contra hne
  exact ((cut_blocks w entries).runs b hb).not_mem_starts ha hne hstart

theorem not_joins_of_start {e : Edge} (hstart : e.target ∈ w.starts entries) :
    ¬ Joins (w.blocks entries) e :=
  fun ⟨_, hb, hmem, hne, _⟩ => hne (eq_start hb hmem hstart)

section

variable (h : Rooted r tier img entries queue w)

include h

theorem Rooted.nodup_members : ((w.blocks entries).flatMap (·.members)).Nodup :=
  h.members_perm.nodup_iff.2 nodup_visited

theorem Rooted.block_unique (hb : b ∈ w.blocks entries) (hb' : b' ∈ w.blocks entries)
    (ha : a ∈ b.members) (ha' : a ∈ b'.members) : b = b' := by
  by_contra hne
  have hapart := (List.nodup_flatMap.mp h.nodup_members).2
  have hsymm : Std.Symm (Function.onFun List.Disjoint fun b : Block => b.members) :=
    ⟨fun _ _ hdisjoint _ hx hx' => hdisjoint hx' hx⟩
  exact hapart.forall hb hb' hne ha ha'

theorem Rooted.owner (hb : b ∈ w.blocks entries) (ha : a ∈ b.members) :
    (Report.owners (w.blocks entries)).getD a a = b.start := by
  refine Std.ExtTreeMap.getD_ofList_of_mem (Std.LawfulEqCmp.compare_eq_iff_eq.mpr rfl) ?_
    (List.mem_flatMap.mpr ⟨b, hb, List.mem_map_of_mem ha⟩)
  have hkeys : ((w.blocks entries).flatMap fun b => b.members.map fun addr => (addr, b.start)).map
      (·.1) = (w.blocks entries).flatMap (·.members) := by
    simp [List.map_flatMap, Function.comp_def]
  have hnodup := hkeys ▸ h.nodup_members
  refine (List.pairwise_map.mp hnodup).imp fun hne heq => hne ?_
  exact Std.LawfulEqCmp.compare_eq_iff_eq.mp heq

theorem Rooted.reaches_member (hb : b ∈ w.blocks entries) (ha : a ∈ b.members) :
    Edge.Reaches (w.liftable (w.blocks entries)) b.start a := by
  have hwithin {addr limit : UInt32} {members : List UInt32} (hsub : ∀ m ∈ members, m ∈ b.members)
      (hruns : Runs (w.starts entries) w.nodes limit addr members) (ha : a ∈ members) :
      Edge.Reaches (w.liftable (w.blocks entries)) addr a := by
    induction hruns with
    | last => exact List.mem_singleton.mp ha ▸ .refl
    | @next addr node members hnode hon _ rest ih =>
      obtain rfl | ha := List.mem_cons.mp ha
      · exact .refl
      have htail (m : UInt32) (hm : m ∈ members) : m ∈ b.members :=
        hsub m (List.mem_cons_of_mem _ hm)
      have hedge : ⟨addr, addr + node.width, .fallThrough⟩ ∈ w.liftable (w.blocks entries) := by
        refine mem_liftable.2 ⟨h.fallThrough_mem hnode hon, ?_⟩
        rintro ⟨b', hb', hmem, -, hout⟩
        have heq := h.block_unique hb hb' (htail _ rest.head_mem) hmem
        exact hout (heq ▸ hsub addr List.mem_cons_self)
      exact .head (Edge.leads_of_mem hedge) (ih htail ha)
  exact hwithin (fun _ hm => hm) ((cut_blocks w entries).runs b hb) ha

theorem Rooted.leads_report : Edge.Leads (Report.ofWalk w entries).edges c a ↔
    a ∈ w.starts entries ∧ ∃ b ∈ w.blocks entries, b.start = c ∧
      ∃ x ∈ b.members, Edge.Leads w.edges.toList x a := by
  have hlifted (e : Edge) (he : e ∈ w.edges) :
      (e.kind ≠ .fallThrough ∨ (w.starts entries).contains e.target = true) ↔
        e.target ∈ w.starts entries := by
    rw [← Std.ExtTreeSet.mem_iff_contains]
    exact or_iff_right_of_imp fun hkind => mem_starts.2 (.inr ⟨e, he, .inl hkind, rfl⟩)
  constructor
  · rintro ⟨_, hlift, rfl, rfl⟩
    obtain ⟨e, hfilter, rfl⟩ := List.mem_map.mp hlift
    obtain ⟨hmem, hkept⟩ := List.mem_filter.mp hfilter
    have he := Array.mem_toList_iff.1 hmem
    obtain ⟨b, hb, hsource⟩ := h.exists_block (h.mem_edges.1 he).1
    refine ⟨(hlifted e he).1 (of_decide_eq_true hkept), b, hb, (h.owner hb hsource).symm, ?_⟩
    exact ⟨e.source, hsource, Edge.leads_of_mem hmem⟩
  · rintro ⟨hstart, b, hb, rfl, x, hx, e, he, rfl, rfl⟩
    have hkept := (hlifted e (Array.mem_toList_iff.1 he)).2 hstart
    refine ⟨_, List.mem_map_of_mem (List.mem_filter.mpr ⟨he, decide_eq_true hkept⟩), ?_, rfl⟩
    exact h.owner hb hx

theorem Rooted.reaches_liftable (hentry : entry ∈ entries)
    (hpath : Edge.Reaches (Report.ofWalk w entries).edges entry a) :
    a ∈ w.starts entries ∧ Edge.Reaches (w.liftable (w.blocks entries)) entry a := by
  induction hpath with
  | refl => exact ⟨mem_starts.2 (.inl hentry), .refl⟩
  | tail _ hleads ih =>
    obtain ⟨hstart, b, hb, rfl, x, hx, e, he, rfl, rfl⟩ := h.leads_report.1 hleads
    have hedge : e ∈ w.liftable (w.blocks entries) :=
      mem_liftable.2 ⟨Array.mem_toList_iff.1 he, not_joins_of_start hstart⟩
    exact ⟨hstart, (ih.2.trans (h.reaches_member hb hx)).tail (Edge.leads_of_mem hedge)⟩

/-- Along edges that can be lifted control enters a block at its start, so that the search comes to the
start of each block that it reaches, and to each start. -/
theorem Rooted.reaches_report (hentry : entry ∈ entries)
    (hpath : Edge.Reaches (w.liftable (w.blocks entries)) entry a) :
    (a ∈ w.starts entries → Edge.Reaches (Report.ofWalk w entries).edges entry a) ∧
      ∀ b ∈ w.blocks entries, a ∈ b.members →
        Edge.Reaches (Report.ofWalk w entries).edges entry b.start := by
  induction hpath with
  | refl =>
    exact ⟨fun _ => .refl, fun b hb ha => eq_start hb ha (mem_starts.2 (.inl hentry)) ▸ .refl⟩
  | tail _ hleads ih =>
    obtain ⟨e, he, rfl, rfl⟩ := hleads
    obtain ⟨he, hjoins⟩ := mem_liftable.1 he
    have htarget (hstart : e.target ∈ w.starts entries) :
        Edge.Reaches (Report.ofWalk w entries).edges entry e.target := by
      obtain ⟨b, hb, hsource⟩ := h.exists_block (h.mem_edges.1 he).1
      have hleads := Edge.leads_of_mem (Array.mem_toList_iff.2 he)
      exact (ih.2 b hb hsource).tail
        (h.leads_report.2 ⟨hstart, b, hb, rfl, e.source, hsource, hleads⟩)
    refine ⟨htarget, fun b hb hmem => ?_⟩
    by_cases heq : e.target = b.start
    · exact heq ▸ htarget (heq ▸ start_mem_starts hb)
    · have hinside : e.source ∈ b.members := by
        by_contra hout
        exact hjoins ⟨b, hb, hmem, heq, hout⟩
      exact ih.2 b hb hinside

end

def ReachesBlock (edges : List Edge) (blocks : List Block) (entry a : UInt32) : Prop :=
  ∃ b ∈ blocks, b.start = a ∧ ∃ x ∈ b.members, Edge.Reaches edges entry x

theorem Rooted.mem_function (h : Rooted r tier img entries queue w) (hentry : entry ∈ entries) :
    a ∈ (Report.function (Report.ofWalk w entries).edges entry).blocks ↔
      ReachesBlock (w.liftable (w.blocks entries)) (w.blocks entries) entry a ∨
      a ∈ w.starts entries ∧ a ∉ w.visited ∧
        Edge.Reaches (w.liftable (w.blocks entries)) entry a := by
  rw [Report.mem_function]
  constructor
  · intro hpath
    obtain ⟨hstart, hpath⟩ := h.reaches_liftable hentry hpath
    by_cases hvisited : a ∈ w.visited
    · obtain ⟨b, hb, rfl⟩ := exists_block_of_start hstart (mem_visited.1 hvisited)
      exact .inl ⟨b, hb, rfl, b.start, start_mem hb, hpath⟩
    · exact .inr ⟨hstart, hvisited, hpath⟩
  · rintro (⟨b, hb, rfl, x, hx, hpath⟩ | ⟨hstart, -, hpath⟩)
    · exact (h.reaches_report hentry hpath).2 b hb hx
    · exact (h.reaches_report hentry hpath).1 hstart

/-- Where no edge in reach falls into the midst of a block, or leads to a start that is no
instruction, a function has the blocks in reach along the walk's own edges. -/
theorem Rooted.mem_function_of_lifted (h : Rooted r tier img entries queue w)
    (hentry : entry ∈ entries) (hvisited : entry ∈ w.visited)
    (hlifted : ∀ e ∈ w.edges, Edge.Reaches w.edges.toList entry e.source →
      ¬ Joins (w.blocks entries) e ∧ (e.target ∈ w.starts entries → e.target ∈ w.visited)) :
    a ∈ (Report.function (Report.ofWalk w entries).edges entry).blocks ↔
      ReachesBlock w.edges.toList (w.blocks entries) entry a := by
  have hmore : ∀ e ∈ w.liftable (w.blocks entries), e ∈ w.edges.toList :=
    fun e he => Array.mem_toList_iff.2 (mem_liftable.1 he).1
  have hall {x : UInt32} (hpath : Edge.Reaches w.edges.toList entry x) :
      Edge.Reaches (w.liftable (w.blocks entries)) entry x ∧
        (x ∈ w.starts entries → x ∈ w.visited) := by
    induction hpath with
    | refl => exact ⟨.refl, fun _ => hvisited⟩
    | tail hpath hleads ih =>
      obtain ⟨e, he, rfl, rfl⟩ := hleads
      have he := Array.mem_toList_iff.1 he
      obtain ⟨hjoins, hstart⟩ := hlifted e he hpath
      exact ⟨ih.1.tail (Edge.leads_of_mem (mem_liftable.2 ⟨he, hjoins⟩)), hstart⟩
  rw [h.mem_function hentry]
  constructor
  · rintro (⟨b, hb, rfl, x, hx, hpath⟩ | ⟨hstart, hnew, hpath⟩)
    · exact ⟨b, hb, rfl, x, hx, hpath.mono hmore⟩
    · exact absurd ((hall (hpath.mono hmore)).2 hstart) hnew
  · rintro ⟨b, hb, rfl, x, hx, hpath⟩
    exact .inl ⟨b, hb, rfl, x, hx, (hall hpath).1⟩

end Walk

namespace Report

open Walk

/-- A report has one function for each entry. For an entry that was visited it has the blocks with an
instruction in reach, along all edges but those that fall into the midst of a block from outside, and
besides the starts in reach that were not visited. It has just the blocks with an instruction in reach
if there are no such edges and no such starts. -/
theorem functions_reach (r : Registry) (tier : Tier) (img : Image) (entries : List UInt32)
    (budget : Nat) :
    let w := fromEntries r tier img entries budget
    let report := ofWalk w entries
    report.functions.map (·.entry) = entries ∧
    ∀ f ∈ report.functions, f.entry ∈ w.visited →
      (∀ a, a ∈ f.blocks ↔
        ReachesBlock (w.liftable report.blocks) report.blocks f.entry a ∨
        a ∈ w.starts entries ∧ a ∉ w.visited ∧
          Edge.Reaches (w.liftable report.blocks) f.entry a) ∧
      ((∀ e ∈ w.edges, Edge.Reaches w.edges.toList f.entry e.source →
          ¬ Joins report.blocks e ∧ (e.target ∈ w.starts entries → e.target ∈ w.visited)) →
        ∀ a, a ∈ f.blocks ↔ ReachesBlock w.edges.toList report.blocks f.entry a) := by
  intro w report
  have hrooted : Rooted r tier img entries [] w := rooted_fromEntries
  constructor
  · exact (List.map_map ..).trans (List.map_id entries)
  · intro f hf hvisited
    obtain ⟨entry, hentry, rfl⟩ := List.mem_map.mp hf
    constructor
    · exact fun a => hrooted.mem_function hentry
    · exact fun hlifted a => hrooted.mem_function_of_lifted hentry hvisited hlifted

theorem functions_reach_loop :
    let img := Image.ofBytes 0x1000 [0x4E, 0x71, 0x67, 0xFC, 0x4E, 0x75]
    let w := fromEntries .full .c img [0x1000] 10
    let report := ofWalk w [0x1000]
    report.functions = [⟨0x1000, [0x1000, 0x1004]⟩] ∧ 0x1000 ∈ w.visited ∧
      (∀ e ∈ w.edges, Edge.Reaches w.edges.toList 0x1000 e.source → ¬ Joins report.blocks e ∧
        (e.target ∈ w.starts [0x1000] → e.target ∈ w.visited)) ∧
      (∀ a, a ∈ [0x1000, 0x1004] ↔
        ReachesBlock (w.liftable report.blocks) report.blocks 0x1000 a ∨
        a ∈ w.starts [0x1000] ∧ a ∉ w.visited ∧
          Edge.Reaches (w.liftable report.blocks) 0x1000 a) ∧
      ∀ a, a ∈ [0x1000, 0x1004] ↔ ReachesBlock w.edges.toList report.blocks 0x1000 a := by
  intro img w report
  have hwalk : (w.visited, report.functions,
      decide (∀ e ∈ w.edges, ¬ Joins report.blocks e ∧ e.target ∈ w.visited)) =
      ([0x1000, 0x1002, 0x1004], [⟨0x1000, [0x1000, 0x1004]⟩], true) :=
    of_extendIn? (fun w => (w.visited, (ofWalk w [0x1000]).functions, decide (∀ e ∈ w.edges,
      ¬ Joins (ofWalk w [0x1000]).blocks e ∧ e.target ∈ w.visited))) 10 (by decide +kernel)
  obtain ⟨hvisited, hwalk⟩ := Prod.mk.inj hwalk
  obtain ⟨hfunctions, hall⟩ := Prod.mk.inj hwalk
  have hlifted : ∀ e ∈ w.edges, Edge.Reaches w.edges.toList 0x1000 e.source →
      ¬ Joins report.blocks e ∧ (e.target ∈ w.starts [0x1000] → e.target ∈ w.visited) := by
    intro e he _
    obtain ⟨hjoins, htarget⟩ := of_decide_eq_true hall e he
    exact ⟨hjoins, fun _ => htarget⟩
  have hentry : 0x1000 ∈ w.visited := hvisited ▸ List.mem_cons_self
  obtain ⟨hsearch, hreach⟩ := (functions_reach .full .c img [0x1000] 10).2
    ⟨0x1000, [0x1000, 0x1004]⟩ (hfunctions ▸ List.mem_cons_self) hentry
  exact ⟨hfunctions, hentry, hlifted, hsearch, hreach hlifted⟩

/-- The second entry lies in the first instruction, and both go on with the branch at 0x1004, which is
in the block of the first one and leads out of the image. The second function lacks that block, and the
first has an address that is no block. -/
theorem not_functions_reach_overlap :
    let img := Image.ofBytes 0x1000 [0x30, 0x3C, 0x4E, 0x71, 0x60, 0x02]
    let w := fromEntries .full .c img [0x1000, 0x1002] 10
    let report := ofWalk w [0x1000, 0x1002]
    report.blocks = [⟨0x1000, 0x1006, [0x1000, 0x1004]⟩, ⟨0x1002, 0x1004, [0x1002]⟩] ∧
      report.functions = [⟨0x1000, [0x1000, 0x1008]⟩, ⟨0x1002, [0x1002]⟩] ∧
      ReachesBlock w.edges.toList report.blocks 0x1002 0x1000 ∧
      ¬ ReachesBlock w.edges.toList report.blocks 0x1000 0x1008 ∧
      ¬ ∀ f ∈ report.functions, f.entry ∈ w.visited →
        ∀ a, a ∈ f.blocks ↔ ReachesBlock w.edges.toList report.blocks f.entry a := by
  intro img w report
  have hwalk : (w.visited, w.edges.toList, report.blocks, report.functions) =
      ([0x1000, 0x1002, 0x1004], [⟨0x1000, 0x1004, .fallThrough⟩, ⟨0x1002, 0x1004, .fallThrough⟩,
        ⟨0x1004, 0x1008, .branch⟩], [⟨0x1000, 0x1006, [0x1000, 0x1004]⟩, ⟨0x1002, 0x1004, [0x1002]⟩],
        [⟨0x1000, [0x1000, 0x1008]⟩, ⟨0x1002, [0x1002]⟩]) :=
    of_extendIn? (fun w => (w.visited, w.edges.toList, (ofWalk w [0x1000, 0x1002]).blocks,
      (ofWalk w [0x1000, 0x1002]).functions)) 10 (by decide +kernel)
  obtain ⟨hvisited, hwalk⟩ := Prod.mk.inj hwalk
  obtain ⟨hedges, hwalk⟩ := Prod.mk.inj hwalk
  obtain ⟨hblocks, hfunctions⟩ := Prod.mk.inj hwalk
  have hreached : ReachesBlock w.edges.toList report.blocks 0x1002 0x1000 := by
    have hleads : Edge.Leads w.edges.toList 0x1002 0x1004 :=
      ⟨⟨0x1002, 0x1004, .fallThrough⟩, by simp [hedges], rfl, rfl⟩
    exact ⟨_, hblocks ▸ List.mem_cons_self, rfl, 0x1004, by simp, .single hleads⟩
  refine ⟨hblocks, hfunctions, hreached, ?_, fun hall => ?_⟩
  · rintro ⟨b, hb, hstart, -⟩
    have hnone : ∀ b ∈ report.blocks, b.start ≠ 0x1008 := by
      rw [hblocks]
      decide
    exact hnone b hb hstart
  · have hmem := (hall ⟨0x1002, [0x1002]⟩ (by simp [hfunctions]) (by simp [hvisited]) 0x1000).2 hreached
    exact absurd hmem (by decide)

end Report

end ColdFire
