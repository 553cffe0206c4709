import ColdFire.Proofs.Assembly.Passes
import ColdFire.Proofs.Assembly.Reach
import ColdFire.Proofs.Execution.PcBase
import ColdFire.Proofs.Registry.EncodeDecode

namespace ColdFire

namespace Registry

variable {tier : Tier} {name : String} {ops : Operands} {words : List UInt16}

/-- The operands of a request are decoded from its words, wherever these are read. -/
theorem redecode_of_encode (hregs : ops.RegistersExist) (h : full.encode name ops tier = .ok words) :
    ∃ opcode exts, words = opcode :: exts ∧
      ∀ s : WordSource, s.opcode = opcode → s.Holds 0 exts →
        ∃ x decoded c size, full.lookup s.opcode tier = some x ∧
          x.1.decode s .start = .ok decoded c ∧ decoded.extWords = exts.length ∧
          decoded.src = ops.src.map (Ea.reduced size) ∧
          decoded.dst = ops.dst.map (Ea.reduced size) := by
  rw [encode, except_bind_eq_ok] at h
  obtain ⟨⟨x, e⟩, hchoose, hwords⟩ := h
  obtain ⟨exts, rfl, hstand⟩ := Encoding.stand_of_words hwords
  refine ⟨_, exts, rfl, ?_⟩
  intro s hop hholds
  obtain ⟨hlookup, hrereads⟩ := rereads_of_choose hregs hchoose hop.symm (hstand s hholds)
  obtain ⟨name', ops', mark, hread, hreturned, -⟩ := hrereads.read
  have hdecode := Definition.decode_of_read hread
  exact ⟨x, _, _, _, hlookup, hdecode, rfl, hreturned.src, hreturned.dst⟩

end Registry

namespace Assembler

open Assembly

variable {a : Assembler} {tier : Tier} {s : Scope} {mnemonic : String} {size : Option Size}
  {pc : UInt32} {operands : List Operand} {ops : Operands} {known : Bool}

theorem toList_of_arrange {eas : List Ea} (hlength : eas.length ≤ 2)
    (h : a.arrange mnemonic size eas = .ok ops) : ops.src.toList ++ ops.dst.toList = eas := by
  unfold arrange at h
  split at h
  · obtain ⟨rfl | rfl, -⟩ := arrangeOne_eq_ok h
    · rfl
    · rfl
  · cases h
    match eas, hlength with
    | [], _ | [_], _ | [_, _], _ => rfl

theorem of_request (h : a.request s mnemonic size operands pc = .ok (ops, known)) :
    ∃ rs, operands.mapM (a.lower s mnemonic pc) = .ok rs ∧
      ops.src.toList ++ ops.dst.toList = rs.map Prod.fst := by
  obtain ⟨hlength, rs, hrs, harrange, -⟩ := request_eq_ok.1 h
  refine ⟨rs, hrs, toList_of_arrange ?_ harrange⟩
  rw [List.length_map, ← (Image.mapM_eq_ok.1 hrs).length_eq]
  exact hlength

theorem registersExist_of_request (hregs : ∀ op ∈ operands, op.RegistersExist)
    (h : a.request s mnemonic size operands pc = .ok (ops, known)) : ops.RegistersExist := by
  obtain ⟨rs, hrs, hlist⟩ := of_request h
  have hexist (ea : Ea) (hea : ea ∈ ops.src.toList ++ ops.dst.toList) : ea.RegistersExist := by
    rw [hlist] at hea
    obtain ⟨r, hr, rfl⟩ := List.mem_map.mp hea
    obtain ⟨operand, hmem, hlower⟩ := exists_of_mem_mapM hrs hr
    exact registersExist_of_lower (hregs operand hmem) hlower
  constructor
  · intro ea hsrc
    exact hexist ea (by simp [hsrc])
  · intro ea hdst
    exact hexist ea (by simp [hdst])

theorem reaches_of_request {d : Decoded} {cut : Size} (hs : s.strict = true)
    (h : a.request s mnemonic size operands d.address = .ok (ops, known))
    (hsrc : d.src = ops.src.map (Ea.reduced cut)) (hdst : d.dst = ops.dst.map (Ea.reduced cut))
    (hne : ∀ off, d.dst ≠ some (.relative off)) :
    List.Forall₂ (Operand.Reaches (a.registry.isBranch mnemonic) s.symbols d) operands
      (d.src.toList ++ d.dst.toList) := by
  obtain ⟨rs, hrs, hlist⟩ := of_request h
  -- what is lowered to the displacement of a branch can only have become the source
  have hrelative (r : Ea × Bool) (hr : r ∈ rs) (off : Int32) (hoff : r.1 = .relative off) :
      d.src = some r.1 := by
    have hmem : r.1 ∈ ops.src.toList ++ ops.dst.toList := hlist ▸ List.mem_map_of_mem hr
    rw [hoff] at hmem ⊢
    rcases List.mem_append.mp hmem with hmem | hmem
    · rw [hsrc, Option.mem_toList.mp hmem]
      rfl
    · refine absurd ?_ (hne off)
      rw [hdst, Option.mem_toList.mp hmem]
      rfl
  have hdecoded : d.src.toList ++ d.dst.toList = rs.map fun r => r.1.reduced cut := by
    rw [hsrc, hdst, Option.toList_map, Option.toList_map, ← List.map_append, hlist, List.map_map]
    rfl
  rw [Image.mapM_eq_ok, List.forall₂_iff_zip] at hrs
  rw [hdecoded, List.forall₂_map_right_iff, List.forall₂_iff_zip]
  refine ⟨hrs.1, ?_⟩
  intro operand r hmem
  exact reaches_of_lower hs (hrs.2 hmem) cut (hrelative r (List.of_mem_zip hmem).2)

theorem lines_of_plan {symbols final : Symbols} {lines : List Line} {ps : List Placement}
    (h : a.plan symbols pc lines = .ok (final, ps)) : ps.map (·.line) = lines := by
  induction lines generalizing symbols pc ps with
  | nil =>
    cases h
    rfl
  | cons line rest ih =>
    obtain ⟨known, size, length, next, placements, -, -, -, hrest, rfl⟩ := plan_cons h
    rw [List.map_cons, ih hrest]

/-- Wherever an opcode word and the words behind it are read at an address, an instruction is decoded
from just these words, and its operands reach what the operands of a statement were written with. -/
def Reached (tier : Tier) (symbols : Symbols) (mnemonic : String) (operands : List Operand)
    (address : UInt32) (opcode : UInt16) (exts : List UInt16) : Prop :=
  ∀ s : WordSource, s.address = address → s.opcode = opcode → s.Holds 0 exts →
    ∃ x decoded c, Registry.full.lookup s.opcode tier = some x ∧
      x.1.decode s .start = .ok decoded c ∧ decoded.address = address ∧
      decoded.extWords = exts.length ∧
      List.Forall₂ (Operand.Reaches (Registry.full.isBranch mnemonic) symbols decoded) operands
        (decoded.src.toList ++ decoded.dst.toList)

theorem reached_of_emit {symbols : Symbols} {p : Placement} {e e' : Emission}
    (hst : p.line.statement = some (.instruction mnemonic size operands))
    (hregs : ∀ op ∈ operands, op.RegistersExist) (hpc : e.pc = p.address)
    (h : (Assembler.mk .full tier).emit symbols e p = .ok e') :
    ∃ opcode exts, e'.image = e.image.writeWords p.address (opcode :: exts) ∧
      Reached tier symbols mnemonic operands p.address opcode exts := by
  rw [emit, hst] at h
  obtain ⟨ops, known, words, hrequest, hwords, -, hwrites⟩ := of_emit_instruction h
  rw [hpc] at hrequest
  have hexist : ops.RegistersExist := registersExist_of_request hregs hrequest
  have hsized : Operands.RegistersExist { ops with size := p.size } := hexist
  obtain ⟨opcode, exts, rfl, hredecode⟩ := Registry.redecode_of_encode hsized hwords
  refine ⟨opcode, exts, ?_, ?_⟩
  · rw [hwrites.image, hpc]
    rfl
  · intro s haddress hop hholds
    obtain ⟨x, decoded, c, cut, hlookup, hdecode, hlength, hsrc, hdst⟩ := hredecode s hop hholds
    have hplace : decoded.address = p.address :=
      (Definition.read_of_decode hdecode).2.1.trans haddress
    rw [← hplace] at hrequest
    exact ⟨x, decoded, c, hlookup, hdecode, hplace, hlength,
      reaches_of_request rfl hrequest hsrc hdst (Registry.dst_ne_relative hlookup hdecode)⟩

/-- The references of a program reach what they name: the words of every instruction, decoded where
they have been placed, have operands that lead to the values of the expressions that they were written
with. Displacements count from the word behind the opcode word, in every instruction that there is and
for as long as it executes. -/
theorem references_reach (tier : Tier) {source : String} {program : Program}
    (h : (Assembler.mk .full tier).assemble source = .ok program) :
    (∃ lines ps, parseLines source = .ok lines ∧
      (Assembler.mk .full tier).plan ∅ 0 lines = .ok (program.symbols, ps) ∧
      ps.map (·.line) = lines ∧
      ∀ k p mnemonic size operands, ps[k]? = some p →
        p.line.statement = some (.instruction mnemonic size operands) →
        ∃ before after opcode exts,
          (Assembler.mk .full tier).emitted program.symbols ps k = .ok before ∧
          (Assembler.mk .full tier).emit program.symbols before p = .ok after ∧
          after.image = before.image.writeWords p.address (opcode :: exts) ∧
          Reached tier program.symbols mnemonic operands p.address opcode exts) ∧
    (∀ s decoded c, Registry.full.decode tier s .start = .ok (some decoded) c →
      decoded.address = s.address ∧ c.pcMark = 0) ∧
    ∀ (β : Type) [Bus β] (cpu : Cpu) (bus : β) (pc : UInt32) (opcode : UInt16) x decoded c,
      Registry.full.lookup opcode tier = some x →
      x.1.decode (.inMemory bus opcode pc) .start = .ok decoded c →
      Exec.Counts x.1 decoded (.start cpu bus pc opcode) (pc + 2) := by
  refine ⟨?_, fun _ _ _ => Registry.place_of_decode, ?_⟩
  · have hassemble := h
    rw [assemble, except_bind_eq_ok] at h
    obtain ⟨lines, hlines, h⟩ := h
    rw [except_bind_eq_ok] at h
    obtain ⟨⟨symbols, ps⟩, hplan, -⟩ := h
    rw [assemble_eq hlines hplan, except_bind_eq_ok] at hassemble
    obtain ⟨last, hlast, hprogram⟩ := hassemble
    cases hprogram
    obtain ⟨-, hsettled, -⟩ := of_plan hplan
    obtain ⟨-, hplaced⟩ := foldlM_of_settled (e := {}) hsettled rfl
    have hmap := lines_of_plan hplan
    refine ⟨lines, ps, hlines, hplan, hmap, ?_⟩
    intro k p mnemonic size operands hp hst
    -- the run of the second pass up to the statement, and its own step
    obtain ⟨before, after, hbefore, hafter⟩ := emitted_of_foldlM hlast hp
    have hline : p.line ∈ lines := hmap ▸ List.mem_map_of_mem (List.mem_of_getElem? hp)
    obtain ⟨opcode, exts, himage, hreached⟩ := reached_of_emit hst
      (registersExist_of_parseLines hlines hline hst) (hplaced k before hbefore p hp) hafter
    exact ⟨before, after, opcode, exts, hbefore, hafter, himage, hreached⟩
  · intro β _ cpu bus pc opcode x decoded c hlookup hdecode
    exact Exec.counts_of_decode hlookup hdecode

set_option maxRecDepth 1000 in
/-- A branch to a label that comes later, which is placed behind a reference to a table. -/
theorem references_reach_forward :
    let a : Assembler := ⟨.full, .a⟩
    let source := "  lea (table,pc),a0\n  bra done\n  nop\ndone: rts\ntable: .long 1\n"
    ∃ program, a.assemble source = .ok program ∧ program.symbols["done"]? = some 10 ∧
      ∃ s decoded c, Registry.full.decode .a s .start = .ok (some decoded) c ∧
        decoded.branchTarget? = some 10 := by
  intro a source
  let lines : List Line :=
    [⟨1, none, some (.instruction "lea" none [.pcDisp ⟨some "table", 0⟩, .addrReg 0])⟩,
      ⟨2, none, some (.instruction "bra" none [.bare ⟨some "done", 0⟩])⟩,
      ⟨3, none, some (.instruction "nop" none [])⟩,
      ⟨4, some "done", some (.instruction "rts" none [])⟩,
      ⟨5, some "table", some (.data .long [⟨none, 1⟩])⟩]
  have hlines : parseLines source = .ok lines := by decide
  obtain ⟨program, hprogram, hdone⟩ := except_exists_of_any (x := a.assemble source)
    (f := fun program => program.symbols["done"]? == some 10) (by decide)
  rw [beq_iff_eq] at hdone
  obtain ⟨⟨lines', ps, hlines', -, hmap, hstatements⟩, -⟩ := references_reach .a hprogram
  cases hlines.symm.trans hlines'
  have hline : (ps[1]?).map (·.line) = lines[1]? := by rw [← hmap, List.getElem?_map]
  obtain ⟨p, hp, hpline⟩ := Option.map_eq_some_iff.mp hline
  obtain ⟨before, after, opcode, exts, -, -, -, hreached⟩ :=
    hstatements 1 p "bra" none _ hp (by rw [hpline])
  have hholds : (WordSource.ofWords opcode exts p.address).Holds 0 exts :=
    WordSource.holds_ofWords.2 (List.prefix_refl exts)
  obtain ⟨x, decoded, c, hlookup, hdecode, -, -, hoperands⟩ := hreached _ rfl rfl hholds
  refine ⟨program, hprogram, hdone, _, decoded, c, Registry.decode_eq hlookup hdecode, ?_⟩
  obtain ⟨ea, _, ⟨v, ⟨addr, haddr, rfl⟩, htarget⟩, -⟩ := List.forall₂_cons_left_iff.mp hoperands
  rw [if_pos (by decide)] at htarget
  cases hdone.symm.trans haddr
  exact htarget.2.1

end Assembler

end ColdFire
