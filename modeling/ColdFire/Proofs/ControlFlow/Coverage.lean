import ColdFire.Proofs.ControlFlow.Closed
import ColdFire.Proofs.Execution.Handover
import ColdFire.Proofs.Instruction.Plain

namespace ColdFire

namespace Operation

def isCall : Operation → Bool
  | call => true
  | branch cond => cond == 1
  | _ => false

def isReturn : Operation → Bool
  | returnFromCall | returnFromException => true
  | _ => false

def goesToOperand : Operation → Bool
  | branch _ | jump | call => true
  | _ => false

theorem flow_of_isCall {op : Operation} (h : op.isCall = true) : op.flow = .call := by
  cases op with
  | branch cond =>
    obtain rfl : cond = 1 := eq_of_beq h
    rfl
  | call => rfl
  | _ => cases h

theorem edgeKind?_of_goesToOperand {op : Operation} (h : op.goesToOperand = true) :
    ∃ kind, op.flow.edgeKind? = some kind := by
  cases op with
  | branch cond =>
    rw [flow_branch]
    split
    · exact ⟨_, rfl⟩
    · split <;> exact ⟨_, rfl⟩
  | jump | call => exact ⟨_, rfl⟩
  | _ => cases h

end Operation

/-- An instruction that a machine completes: its definition, what its words decode to, and what it
ends with. -/
structure Completion where
  machine : Machine Image
  definition : Definition
  decoded : Decoded
  context : Context Image

namespace Completion

variable (x : Completion)

def address : UInt32 := x.machine.cpu.pc

def length : Nat := 2 + 2 * x.context.cursor.consumed

def after : Machine Image :=
  ⟨{ x.context.cpu with pc := x.context.continuation }, x.context.bus⟩

/-- The instruction is the one at the program counter, and a step completes it and leaves the
processor running. -/
structure Occurs : Prop where
  reads : ∃ source i cursor, WordSource.ofBus x.machine.bus x.address = .ok source ∧
    Registry.full.lookup source.opcode x.machine.cpu.config.tier = some (x.definition, i) ∧
    x.definition.decode source .start = .ok x.decoded cursor
  completes : Run.ending .full x.machine = .completed x.context
  steps : Run.step .full x.machine = .ok .running x.after

def Intact (img : Image) : Prop :=
  ∀ k < x.length, x.machine.bus.get? (x.address + UInt32.ofNat k) =
    img.get? (x.address + UInt32.ofNat k)

instance decidableIntact (img : Image) : Decidable (x.Intact img) :=
  inferInstanceAs (Decidable (∀ k < x.length, _))

/-- How an instruction may move on, given those executed before. -/
inductive Moves (earlier : List Completion) : Prop
  /-- To the instruction behind. -/
  | behind (h : x.context.jump = none)
  /-- To a target that the instruction alone tells, or on behind it. -/
  | target (goes : x.definition.operation.goesToOperand = true)
      (known : x.decoded.staticTarget? ≠ none)
  /-- Back behind an earlier call. -/
  | back (returns : x.definition.operation.isReturn = true) (call : Completion) (mem : call ∈ earlier)
      (calls : call.definition.operation.isCall = true)
      (h : x.after.cpu.pc = call.address + UInt32.ofNat call.length)

end Completion

/-- A run from a machine, and the instructions that it has completed, the latest first. All of them
stood in memory as they stand in an image. -/
inductive Trace (img : Image) (first : Machine Image) : List Completion → Machine Image → Prop
  | start : Trace img first [] first
  | step {earlier : List Completion} {x : Completion} (h : Trace img first earlier x.machine)
      (occurs : x.Occurs) (intact : x.Intact img) (moves : x.Moves earlier) :
      Trace img first (x :: earlier) x.after

theorem Image.fetch_of_agree {img img' : Image} {addr v : UInt32} {size : Size}
    (h : fetch img size addr = .ok v) (hagree : ∀ k < size.bytes,
      img.get? (addr + UInt32.ofNat k) = img'.get? (addr + UInt32.ofNat k)) :
    fetch img' size addr = .ok v := by
  obtain ⟨bs, hlen, hget, hv⟩ := Image.read_eq_ok.1 (fetch_eq_ok.1 h)
  refine fetch_eq_ok.2 (Image.read_eq_ok.2 ⟨bs, hlen, fun k hk => ?_, hv⟩)
  rw [← hagree k (hlen ▸ hk)]
  exact hget k hk

namespace Completion

variable {x : Completion} {img : Image}

theorem Occurs.exists_word (h : x.Occurs) : ∃ word i cursor,
    fetch x.machine.bus .word x.address = .ok word ∧
    Registry.full.lookup word.toUInt16 x.machine.cpu.config.tier = some (x.definition, i) ∧
    x.definition.decode (.inMemory x.machine.bus word.toUInt16 x.address) .start =
      .ok x.decoded cursor ∧
    Run.endingOf x.definition word.toUInt16 x.machine = .completed x.context := by
  obtain ⟨source, i, cursor, hsource, hlookup, hdecode⟩ := h.reads
  obtain ⟨word, hfetch, rfl⟩ := WordSource.ofBus_eq_ok.1 hsource
  obtain ⟨word', y, -, -, hfetch', hlookup', -, -, hending⟩ := Run.of_completed h.completes
  cases hfetch.symm.trans hfetch'
  cases hlookup.symm.trans hlookup'
  exact ⟨word, i, cursor, hfetch, hlookup, hdecode, hending⟩

theorem Occurs.length_eq (h : x.Occurs) :
    x.length = x.decoded.length ∧ x.decoded.address = x.address := by
  obtain ⟨word, i, cursor, -, hlookup, hdecode, hending⟩ := h.exists_word
  obtain ⟨-, -, hcursor⟩ := (Run.changes_of_completed hlookup hdecode hending).place
  obtain ⟨-, haddress, hwords⟩ := Definition.read_of_decode hdecode
  refine ⟨?_, haddress⟩
  rw [length, hcursor, Decoded.length, hwords]
  rfl

/-- Whatever is executed as it stands in the image, the walk finds there. -/
theorem Occurs.instructionAt? (h : x.Occurs) (hintact : x.Intact img) :
    Walk.instructionAt? .full x.machine.cpu.config.tier img x.address =
      some (x.definition.flow, x.decoded) := by
  obtain ⟨word, i, cursor, hfetch, hlookup, hdecode, hending⟩ := h.exists_word
  obtain ⟨-, -, hcursor⟩ := (Run.changes_of_completed hlookup hdecode hending).place
  have hlength : x.length = 2 + 2 * cursor.consumed := congrArg (2 + 2 * ·.consumed) hcursor
  -- A word of the instruction is in the image where it is in memory.
  have hword (n : Nat) (hn : n + 2 ≤ x.length) (v : UInt32)
      (hv : fetch x.machine.bus .word (x.address + UInt32.ofNat n) = .ok v) :
      fetch img .word (x.address + UInt32.ofNat n) = .ok v := by
    refine Image.fetch_of_agree hv fun k hk => ?_
    have hk : k < 2 := hk
    rw [UInt32.add_assoc, ← UInt32.ofNat_add]
    exact hintact (n + k) (by omega)
  have hopcode : fetch img .word x.address = .ok word := by
    have hzero : x.address + UInt32.ofNat 0 = x.address := UInt32.add_zero _
    have hfirst := hword 0 (by omega) word
    rw [hzero] at hfirst
    exact hfirst hfetch
  have hsame : (WordSource.inMemory x.machine.bus word.toUInt16 x.address).SameWords
      (.inMemory img word.toUInt16 x.address) 0 cursor.consumed := by
    refine ⟨rfl, fun k _ hk w hw => ?_⟩
    have hplace : x.address + 2 + UInt32.ofNat (2 * k) = x.address + UInt32.ofNat (2 + 2 * k) := by
      rw [UInt32.add_assoc, UInt32.ofNat_add]
      rfl
    simp only [WordSource.inMemory, except_map_eq_ok, hplace] at hw ⊢
    obtain ⟨v, hv, rfl⟩ := hw
    exact ⟨v, hword (2 + 2 * k) (by omega) v hv, rfl⟩
  have hsource : WordSource.ofBus img x.address = .ok (.inMemory img word.toUInt16 x.address) :=
    WordSource.ofBus_eq_ok.2 ⟨word, hopcode, rfl⟩
  exact Walk.instructionAt?_eq_some.2 ⟨_, (x.definition, i), cursor, hsource, hlookup,
    Definition.decode_of_sameWords hdecode hsame rfl, rfl⟩

/-- The instruction moves along an edge that the walk notes, or it returns behind a call. -/
theorem Occurs.edge_or_back (h : x.Occurs) {earlier : List Completion} (hmoves : x.Moves earlier) :
    (∃ e ∈ x.decoded.edges x.definition.flow,
      e.source = x.address ∧ e.target = x.after.cpu.pc) ∨
    x.definition.operation.isReturn = true ∧ ∃ call ∈ earlier,
      call.definition.operation.isCall = true ∧
        x.after.cpu.pc = call.address + UInt32.ofNat call.length := by
  obtain ⟨word, i, cursor, hfetch, hlookup, hdecode, hending⟩ := h.exists_word
  obtain ⟨-, haddress⟩ := h.length_eq
  have hstate : x.context.cpu.state = .running := by
    have hsteps := h.steps
    by_cases hrunning : x.machine.cpu.state = .running
    · rw [Run.step_of_running hrunning, h.completes] at hsteps
      exact (EStateM.Result.ok.inj hsteps).1
    · rw [Run.step_of_not_running hrunning] at hsteps
      exact absurd (EStateM.Result.ok.inj hsteps).1 hrunning
  cases hjump : x.context.jump with
  | none =>
    obtain ⟨hfalls, hnext⟩ := Run.fallsThrough_of_completed hlookup hdecode hending hjump hstate
    exact .inl ⟨_, Decoded.fallThrough_mem_edges hfalls, haddress, hnext.symm⟩
  | some target =>
    cases hmoves with
    | behind hnone =>
      rw [hjump] at hnone
      cases hnone
    | target goes known =>
      obtain ⟨target', htarget⟩ := Option.ne_none_iff_exists'.mp known
      obtain ⟨kind, hkind⟩ := Operation.edgeKind?_of_goesToOperand goes
      rw [← Catalogue.flow_eq _ (Registry.of_lookup_full hlookup).1] at hkind
      -- it goes to the target that it tells: the case of no jump at all is excluded above
      have hto := Exec.jump_of_execute hlookup hdecode htarget (Run.execute_of_completed hending)
      rw [hjump] at hto
      rcases hto with hto | hto
      · cases hto
      · cases hto
        refine .inl ⟨_, Decoded.target_mem_edges hkind htarget, haddress, ?_⟩
        change target = x.context.jump.getD x.context.nextPc
        rw [hjump]
        rfl
    | back returns call mem calls hto => exact .inr ⟨returns, call, mem, calls, hto⟩

def ofEntry? (x : Entry) (m : Machine Image) : Option Completion :=
  match fetch m.bus .word m.cpu.pc with
  | .error _ => none
  | .ok word =>
    if m.cpu.state = .running ∧ x ∈ Registry.full.entries ∧
        x.1.claims word.toUInt16 m.cpu.config.tier = true ∧
        (x.1.privileged && !m.cpu.isSupervisor) = false then
      match x.1.decode (.inMemory m.bus word.toUInt16 m.cpu.pc) .start with
      | .error .. => none
      | .ok decoded _ =>
        match Run.endingOf x.1 word.toUInt16 m with
        | .completed c => if c.cpu.state = .running then some ⟨m, x.1, decoded, c⟩ else none
        | _ => none
    else none

theorem of_ofEntry? {x : Entry} {m : Machine Image} {y : Completion} (h : ofEntry? x m = some y) :
    y.Occurs ∧ y.machine = m ∧ y.definition = x.1 := by
  unfold ofEntry? at h
  split at h
  · cases h
  rename_i word hfetch
  split at h
  swap
  · cases h
  rename_i hchecks
  obtain ⟨running, hx, hclaims, hpriv⟩ := hchecks
  split at h
  · cases h
  rename_i decoded cursor hdecode
  split at h
  swap
  · cases h
  rename_i c hending
  split at h
  swap
  · cases h
  rename_i hstate
  cases h
  have hlookup := Registry.lookup_of_claims hx hclaims
  have hcompletes := (Run.ending_of_lookup hfetch hlookup hpriv).trans hending
  refine ⟨⟨?_, hcompletes, ?_⟩, rfl, rfl⟩
  · exact ⟨_, x.2, cursor, WordSource.ofBus_eq_ok.2 ⟨word, hfetch, rfl⟩, hlookup, hdecode⟩
  · rw [Run.step_of_running running, hcompletes, ← hstate]
    rfl

end Completion

namespace Walk

variable {tier : Tier} {img : Image} {w : Walk} {x : Completion} {earlier : List Completion}

/-- What a walk has of an executed instruction: its address, its length, and the edge that it moved
along, unless it is a return. -/
structure Covers (w : Walk) (x : Completion) : Prop where
  visited : x.address ∈ w.visited
  width : w.nodes[x.address]?.map Node.width = some (UInt32.ofNat x.length)
  edge : x.definition.operation.isReturn = false →
    ∃ e ∈ w.edges, e.source = x.address ∧ e.target = x.after.cpu.pc

/-- How far a walk is ahead of a run: it knows of whatever the run has executed, of where the run is,
and of where it may return to. -/
structure Ahead (tier : Tier) (img : Image) (w : Walk) (earlier : List Completion)
    (m : Machine Image) : Prop where
  sameTier : m.cpu.config.tier = tier
  here : Covered .full tier img [] w m.cpu.pc
  calls : ∀ call ∈ earlier, call.definition.operation.isCall = true →
    Covered .full tier img [] w (call.address + UInt32.ofNat call.length)
  covers : ∀ y ∈ earlier, w.Covers y

theorem Closed.explored {entries : List UInt32} {flow : Flow} {d : Decoded} {addr : UInt32}
    (hclosed : Closed .full tier img entries [] w) (hcovered : Covered .full tier img [] w addr)
    (hinstruction : instructionAt? .full tier img addr = some (flow, d)) :
    ∃ node, w.nodes[addr]? = some node ∧ Explored .full tier img [] w addr node flow d := by
  rcases hcovered with hnode | hnone | hmem
  · rw [Std.ExtTreeMap.mem_iff_isSome_getElem?] at hnode
    obtain ⟨node, hnode⟩ := Option.isSome_iff_exists.mp hnode
    obtain ⟨flow', d', hexplored⟩ := hclosed.nodes addr node hnode
    cases hinstruction.symm.trans hexplored.instruction
    exact ⟨node, hnode, hexplored⟩
  · rw [hinstruction] at hnone
    cases hnone
  · cases hmem

theorem Ahead.step {entries : List UInt32} (hclosed : Closed .full tier img entries [] w)
    (hahead : Ahead tier img w earlier x.machine) (hoccurs : x.Occurs) (hintact : x.Intact img)
    (hmoves : x.Moves earlier) : Ahead tier img w (x :: earlier) x.after := by
  have htier := hahead.sameTier
  obtain ⟨hlength, haddress⟩ := hoccurs.length_eq
  have hinstruction := hoccurs.instructionAt? hintact
  rw [htier] at hinstruction
  have hhere : Covered .full tier img [] w x.address := hahead.here
  obtain ⟨node, hnode, hexplored⟩ := hclosed.explored hhere hinstruction
  have hcovers : w.Covers x := by
    refine ⟨?_, ?_, fun hreturn => ?_⟩
    · rw [visited, Std.ExtTreeMap.mem_keys, Std.ExtTreeMap.mem_iff_isSome_getElem?, hnode]
      rfl
    · rw [hnode, Option.map_some, hexplored.width, hlength]
    · rcases hoccurs.edge_or_back hmoves with ⟨e, he, hends⟩ | ⟨hback, -⟩
      · exact ⟨e, hexplored.edges e he, hends⟩
      · rw [hback] at hreturn
        cases hreturn
  have hcalls : ∀ call ∈ x :: earlier, call.definition.operation.isCall = true →
      Covered .full tier img [] w (call.address + UInt32.ofNat call.length) := by
    intro call hmem hcall
    rcases List.mem_cons.mp hmem with rfl | hmem
    · obtain ⟨word, i, cursor, -, hlookup, -, -⟩ := hoccurs.exists_word
      have hflow : call.definition.flow = .call := by
        rw [Catalogue.flow_eq _ (Registry.of_lookup_full hlookup).1, Operation.flow_of_isCall hcall]
      have hedge := Decoded.fallThrough_mem_edges (d := call.decoded) (congrArg Flow.fallsThrough hflow)
      have hbehind := hexplored.targets _ hedge
      rw [Decoded.nextAddress, haddress, ← hlength] at hbehind
      exact hbehind
    · exact hahead.calls call hmem hcall
  refine ⟨?_, ?_, hcalls, fun y hmem => ?_⟩
  · obtain ⟨word, i, cursor, -, hlookup, hdecode, hending⟩ := hoccurs.exists_word
    rw [← htier]
    exact congrArg Config.tier (Run.config_of_completed hlookup hdecode hending)
  · -- an edge leads to where the walk has nothing left to do, and so does a return behind a call
    rcases hoccurs.edge_or_back hmoves with ⟨e, he, -, htarget⟩ | ⟨-, call, mem, calls, hto⟩
    · exact htarget ▸ hexplored.targets e he
    · rw [hto]
      exact hahead.calls call mem calls
  · rcases List.mem_cons.mp hmem with rfl | hmem
    · exact hcovers
    · exact hahead.covers y hmem

/-- All of a run: the walk is ahead of it from the first instruction to the last. -/
theorem Ahead.of_trace {entries : List UInt32} {first m : Machine Image}
    (hclosed : Closed .full tier img entries [] w) (hfirst : Ahead tier img w [] first)
    (h : Trace img first earlier m) : Ahead tier img w earlier m := by
  induction h with
  | start => exact hfirst
  | step _ occurs intact moves ih => exact ih.step hclosed occurs intact moves

/-- A walk with nothing left to look at covers every run from one of its entries over the image, as
long as the run executes what stands in the image and moves as the instructions alone tell. -/
theorem covers_of_trace {entries : List UInt32} {budget : Nat} {cpu : Cpu} {m : Machine Image}
    {trace : List Completion}
    (hpending : (fromEntries .full cpu.config.tier img entries budget).pending = [])
    (hentry : cpu.pc ∈ entries) (h : Trace img ⟨cpu, img⟩ trace m) :
    ∀ x ∈ trace, (fromEntries .full cpu.config.tier img entries budget).Covers x := by
  have hclosed := closed_fromEntries hpending
  have hfirst : Ahead cpu.config.tier img (fromEntries .full cpu.config.tier img entries budget) []
      ⟨cpu, img⟩ := by
    refine ⟨rfl, hclosed.entries _ hentry, ?_, ?_⟩
    · exact fun _ hmem => nomatch hmem
    · exact fun _ hmem => nomatch hmem
  exact (hfirst.of_trace hclosed h).covers

section

variable {flow : Flow} {d : Decoded} {addr : UInt32} {budget : Nat} {rest : List UInt32}

theorem extend_of_instruction (hnew : addr ∉ w.nodes)
    (h : instructionAt? .full tier img addr = some (flow, d)) :
    extend .full tier img (budget + 1) (addr :: rest) w =
      extend .full tier img budget (rest ++ ((d.edges flow).map (·.target)).filter img.isMapped)
        (w.visit flow d) := by
  rw [extend, if_neg (hnew ∘ Std.ExtTreeMap.mem_iff_contains.2), h]

theorem extend_of_none (hnew : addr ∉ w.nodes)
    (h : instructionAt? .full tier img addr = none) :
    extend .full tier img (budget + 1) (addr :: rest) w =
      extend .full tier img (budget + 1) rest w := by
  rw [extend, if_neg (hnew ∘ Std.ExtTreeMap.mem_iff_contains.2), h]

theorem instructionAt?_of_unclaimed {word : UInt32} (hfetch : fetch img .word addr = .ok word)
    (h : ∀ d ∈ Catalogue.all, d.claims word.toUInt16 tier = false) :
    instructionAt? .full tier img addr = none := by
  rw [Option.eq_none_iff_forall_ne_some]
  rintro ⟨flow, d⟩ hsome
  obtain ⟨source, x, -, hsource, hlookup, -⟩ := instructionAt?_eq_some.1 hsome
  obtain ⟨word', hfetch', rfl⟩ := WordSource.ofBus_eq_ok.1 hsource
  cases hfetch.symm.trans hfetch'
  obtain ⟨hx, hclaims⟩ := Registry.of_lookup hlookup
  exact Bool.false_ne_true ((h x.1 (Registry.mem_full hx)).symm.trans hclaims)

end

set_option maxRecDepth 4000 in
/-- A call and the return behind it, where no instruction follows. -/
theorem covers_of_trace_call :
    let img := Image.ofBytes 0x1000 [0x61, 0x02, 0xFF, 0xFF, 0x4E, 0x75, 0, 0, 0, 0]
    let cpu := { (Cpu.new {}).setSp 0x100A with pc := 0x1000 }
    let w := fromEntries .full cpu.config.tier img [0x1000] 10
    w.pending = [] ∧ ∃ x y, Trace img ⟨cpu, img⟩ [y, x] y.after ∧ x.address = 0x1000 ∧ w.Covers x ∧
      y.address = 0x1004 ∧ w.Covers y ∧ y.after.cpu.pc = 0x1002 := by
  intro img cpu w
  have hrun : ((Completion.ofEntry? (Catalogue.all[74], 74) ⟨cpu, img⟩).bind fun x =>
      (Completion.ofEntry? (Catalogue.all[123], 123) x.after).map fun y =>
        decide ((x.Intact img ∧ y.Intact img) ∧ x.decoded.staticTarget? ≠ none ∧
          x.after.cpu.pc = 0x1004 ∧ x.after.cpu.config.tier = .c ∧
          y.after.cpu.pc = 0x1000 + UInt32.ofNat x.length ∧ x.length = 2 ∧
          ((x.decoded.edges x.definition.flow).map (·.target)).filter img.isMapped =
            [0x1004, 0x1002] ∧
          ((y.decoded.edges y.definition.flow).map (·.target)).filter img.isMapped = [])) =
      some true := by
    decide
  obtain ⟨x, hx, hrun⟩ := Option.bind_eq_some_iff.mp hrun
  obtain ⟨y, hy, hrun⟩ := Option.map_eq_some_iff.mp hrun
  obtain ⟨⟨hxintact, hyintact⟩, htarget, hxpc, htier, hypc, hlength, hxtargets, hytargets⟩ :=
    of_decide_eq_true hrun
  obtain ⟨hxoccurs, hxmachine, hxdef⟩ := Completion.of_ofEntry? hx
  obtain ⟨hyoccurs, hymachine, hydef⟩ := Completion.of_ofEntry? hy
  have hxaddress : x.address = 0x1000 := congrArg (·.cpu.pc) hxmachine
  have hyaddress : y.address = 0x1004 := (congrArg (·.cpu.pc) hymachine).trans hxpc
  have hxat : instructionAt? .full .c img 0x1000 = some (x.definition.flow, x.decoded) := by
    have hat := hxoccurs.instructionAt? hxintact
    rw [hxaddress, hxmachine] at hat
    exact hat
  have hyat : instructionAt? .full .c img 0x1004 = some (y.definition.flow, y.decoded) := by
    have hat := hyoccurs.instructionAt? hyintact
    rw [hyaddress, hymachine, htier] at hat
    exact hat
  have hnone : instructionAt? .full .c img 0x1002 = none := by
    have hfetch : fetch img .word 0x1002 = .ok 0xFFFF := by decide
    exact instructionAt?_of_unclaimed hfetch (by decide)
  have hpending : w.pending = [] := by
    have hentries : [0x1000].filter img.isMapped = [0x1000] := by decide
    have hxplace := address_of_instructionAt? hxat
    have hyplace := address_of_instructionAt? hyat
    have hyfresh : (0x1004 : UInt32) ∉ (({} : Walk).visit x.definition.flow x.decoded).nodes := by
      rw [mem_nodes_visit hxplace]
      exact not_or_intro (by decide) not_mem_empty
    have hfresh : (0x1002 : UInt32) ∉ ((({} : Walk).visit x.definition.flow x.decoded).visit
        y.definition.flow y.decoded).nodes := by
      rw [mem_nodes_visit hyplace, mem_nodes_visit hxplace]
      exact not_or_intro (by decide) (not_or_intro (by decide) not_mem_empty)
    change (fromEntries .full .c img [0x1000] 10).pending = []
    rw [fromEntries, hentries, extend_of_instruction not_mem_empty hxat, hxtargets]
    rw [List.nil_append, extend_of_instruction hyfresh hyat, hytargets]
    rw [List.append_nil, extend_of_none hfresh hnone, extend]
    rfl
  have hxmoves : x.Moves [] := .target (hxdef ▸ rfl) htarget
  have hymoves : y.Moves [x] :=
    .back (hydef ▸ rfl) x List.mem_cons_self (hxdef ▸ rfl) (by rw [hypc, hxaddress])
  have htrace : Trace img ⟨cpu, img⟩ [y, x] y.after := by
    have hfirst : Trace img ⟨cpu, img⟩ [] x.machine := hxmachine ▸ .start
    have hsecond : Trace img ⟨cpu, img⟩ [x] y.machine :=
      hymachine ▸ hfirst.step hxoccurs hxintact hxmoves
    exact hsecond.step hyoccurs hyintact hymoves
  have hcovers := covers_of_trace hpending List.mem_cons_self htrace
  refine ⟨hpending, x, y, htrace, hxaddress, hcovers x (by simp), hyaddress, hcovers y (by simp), ?_⟩
  rw [hypc, hlength]
  rfl

/-- An instruction leaves the bytes of all instructions that a walk has visited as they were. -/
def KeptBy (w : Walk) (x : Completion) : Prop :=
  ∀ addr node, w.nodes[addr]? = some node → ∀ k < node.width.toNat,
    x.after.bus.get? (addr + UInt32.ofNat k) = x.machine.bus.get? (addr + UInt32.ofNat k)

set_option maxRecDepth 4000 in
/-- It is not enough that a run leaves alone what the walk has visited. This one writes an instruction
to where there was none, and goes on to execute it. -/
theorem not_covers_of_kept :
    let img := Image.ofBytes 0x1000 [0x30, 0x80, 0xFF, 0xFF]
    let cpu := { ((Cpu.new {}).setDataReg 0 0x4E71).setAddrReg 0 0x1002 with pc := 0x1000 }
    let w := fromEntries .full cpu.config.tier img [0x1000] 10
    w.pending = [] ∧ img.isMapped cpu.pc = true ∧ ∃ x y : Completion,
      x.machine = ⟨cpu, img⟩ ∧ x.Occurs ∧ x.Moves [] ∧ w.KeptBy x ∧
      y.machine = x.after ∧ y.Occurs ∧ y.Moves [x] ∧ w.KeptBy y ∧ y.address ∉ w.visited := by
  intro img cpu w
  have hrun : ((Completion.ofEntry? (Catalogue.all[55], 55) ⟨cpu, img⟩).bind fun x =>
      (Completion.ofEntry? (Catalogue.all[124], 124) x.after).map fun y =>
        decide (x.Intact img ∧ x.context.jump = none ∧ y.context.jump = none ∧
          x.after.cpu.pc = 0x1002 ∧ x.decoded.length = 2 ∧
          ((x.decoded.edges x.definition.flow).map (·.target)).filter img.isMapped = [0x1002] ∧
          (∀ k < 2, x.after.bus.get? (0x1000 + UInt32.ofNat k) =
            img.get? (0x1000 + UInt32.ofNat k)) ∧
          ∀ k < 2, y.after.bus.get? (0x1000 + UInt32.ofNat k) =
            x.after.bus.get? (0x1000 + UInt32.ofNat k))) = some true := by
    decide
  obtain ⟨x, hx, hrun⟩ := Option.bind_eq_some_iff.mp hrun
  obtain ⟨y, hy, hrun⟩ := Option.map_eq_some_iff.mp hrun
  obtain ⟨hintact, hxjump, hyjump, hxpc, hlength, htargets, hxkeeps, hykeeps⟩ :=
    of_decide_eq_true hrun
  obtain ⟨hxoccurs, hxmachine, -⟩ := Completion.of_ofEntry? hx
  obtain ⟨hyoccurs, hymachine, -⟩ := Completion.of_ofEntry? hy
  have hyaddress : y.address = 0x1002 := (congrArg (·.cpu.pc) hymachine).trans hxpc
  have hat : instructionAt? .full .c img 0x1000 = some (x.definition.flow, x.decoded) := by
    have hat := hxoccurs.instructionAt? hintact
    rw [Completion.address, hxmachine] at hat
    exact hat
  have hplace := address_of_instructionAt? hat
  have hnone : instructionAt? .full .c img 0x1002 = none := by
    have hfetch : fetch img .word 0x1002 = .ok 0xFFFF := by decide
    exact instructionAt?_of_unclaimed hfetch (by decide)
  have hfresh : (0x1002 : UInt32) ∉ (({} : Walk).visit x.definition.flow x.decoded).nodes := by
    rw [mem_nodes_visit hplace]
    exact not_or_intro (by decide) not_mem_empty
  have hwalk : w = ({} : Walk).visit x.definition.flow x.decoded := by
    have hentries : [0x1000].filter img.isMapped = [0x1000] := by decide
    change fromEntries .full .c img [0x1000] 10 = _
    rw [fromEntries, hentries, extend_of_instruction not_mem_empty hat, htargets]
    rw [List.nil_append, extend_of_none hfresh hnone, extend]
  have hkept (z : Completion) (h : ∀ k < 2, z.after.bus.get? (0x1000 + UInt32.ofNat k) =
      z.machine.bus.get? (0x1000 + UInt32.ofNat k)) : w.KeptBy z := by
    intro addr node hnode k hk
    rw [hwalk, getElem?_visit hplace] at hnode
    split at hnode
    · rename_i haddr
      cases hnode
      rw [hlength] at hk
      rw [haddr]
      exact h k hk
    · cases Std.ExtTreeMap.getElem?_empty.symm.trans hnode
  refine ⟨hwalk ▸ rfl, by decide, x, y, hxmachine, hxoccurs, .behind hxjump, ?_, hymachine,
    hyoccurs, .behind hyjump, ?_, ?_⟩
  · apply hkept
    rw [hxmachine]
    exact hxkeeps
  · apply hkept
    rw [hymachine]
    exact hykeeps
  · rw [hyaddress, hwalk, visited, Std.ExtTreeMap.mem_keys]
    exact hfresh

end Walk

end ColdFire
