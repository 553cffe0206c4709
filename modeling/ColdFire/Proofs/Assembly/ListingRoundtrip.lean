import ColdFire.Proofs.Assembly.ListingRequest
import ColdFire.Proofs.Assembly.Passes

namespace ColdFire

open Text Assembly

namespace Registry

variable {opcode : UInt16} {exts : List UInt16} {address : UInt32} {tier : Tier} {c : Cursor}
  {d : Decoded}

theorem words_of_decode (h : full.decode tier (.ofWords opcode exts address) .start = .ok (some d) c)
    (hall : c.consumed = exts.length) (hzero : d.src ≠ some (.relative 0)) :
    ∃ x e, full.choose d.mnemonic d.toOperands tier = .ok (x, e) ∧
      e.words = .ok (opcode :: exts) := by
  obtain ⟨x, e, ws, hchoose, hwords, hholds, hlength⟩ := choose_of_decode h hzero
  obtain ⟨_, _, hdecode⟩ := of_decode_some h
  have hprefix : ws <+: exts := WordSource.holds_ofWords.1 hholds
  have hsame : ws = exts := by
    refine hprefix.eq_of_length ?_
    rw [hlength, (Definition.read_of_decode hdecode).2.2, hall]
  exact ⟨x, e, hchoose, hsame ▸ hwords⟩

theorem length_le_of_decode (h : full.decode tier (.ofWords opcode exts address) .start = .ok (some d) c)
    (hall : c.consumed = exts.length) (hzero : d.src ≠ some (.relative 0)) : exts.length ≤ 4 := by
  obtain ⟨x, e, hchoose, hwords⟩ := words_of_decode h hall hzero
  obtain ⟨hx, hname, -, hplan⟩ := of_choose hchoose
  obtain ⟨y, hlookup, hdecode⟩ := of_decode_some h
  have hsized (hf : x.1.format = .branch) : d.size ≠ none := by
    intro hsize
    have hbranch := isBranch_of_answersTo hx hname
      (Catalogue.isBranch_of_branch x.1 (mem_full hx) hf)
    rw [isBranch_of_unsized hlookup hdecode hsize] at hbranch
    cases hbranch
  have hlength := Definition.length_of_plan hsized hplan
  have hle := x.1.extWords_le d.toOperands
  rw [Encoding.length_words hwords, List.length_cons] at hlength
  omega

end Registry

namespace Assembler

variable {a : Assembler} {address : UInt32} {line : String} {st : Statement}

def sourceAt (address : UInt32) (line : String) : String :=
  ".org " ++ Text.hex 1 address.toNat ++ "\n" ++ line ++ "\n"

theorem parseLines_sourceAt (hline : line.toList ⊆ ' ' :: ink)
    (h : Line.parse 2 line.toList = .ok ⟨2, none, some st⟩) :
    parseLines (sourceAt address line) =
      .ok [⟨1, none, some (.org (.ofInt address.toNat))⟩, ⟨2, none, some st⟩] := by
  have hends : ∀ c ∈ ' ' :: ink, c ≠ '\n' ∧ c ≠ '\r' := List.all_iff_forall_prop.mp (by decide)
  have horigin : Line.origin (Text.hex 1 address.toNat).toList ⊆ ' ' :: ink :=
    List.Subset.trans
      (Line.origin_subset (Operand.subset_innerInk_of_numeral (Operand.numeral_long address)))
      (List.cons_subset_cons _ innerInk_subset_ink)
  have hsource : (sourceAt address line).toList =
      Line.origin (Text.hex 1 address.toNat).toList ++ '\n' :: (line.toList ++ ['\n']) := by
    simp [sourceAt, Line.origin]
  have hlines : Text.lines (sourceAt address line).toList =
      [Line.origin (Text.hex 1 address.toNat).toList, line.toList] := by
    rw [hsource, lines_cons (fun hc => (hends _ (horigin hc)).1 rfl)
      (fun hc => (hends _ (horigin hc)).2 rfl), lines_cons (fun hc => (hends _ (hline hc)).1 rfl)
      (fun hc => (hends _ (hline hc)).2 rfl), lines_nil]
  rw [parseLines, hlines]
  simp only [List.zipIdx_cons, List.zipIdx_nil, List.mapM_cons, List.mapM_nil,
    Line.parse_origin (Operand.numeral_long address), h]
  rfl

theorem place_origin (scope : Scope) (pc : UInt32) :
    a.place scope pc (.org (.ofInt address.toNat)) = .ok (none, 0, address) := by
  rw [place, evalWithin_ofInt (within_long address)]
  change Except.ok (none, 0, (Value.mk (.ofInt address.toNat) true).long) = _
  rw [Value.long_of rfl, ofInt_toNat]

theorem emit_origin {symbols : Symbols} {p : Placement} {e : Emission}
    (hp : p.line.statement = some (.org (.ofInt address.toNat))) :
    a.emit symbols e p = .ok { e with pc := address } := by
  rw [emit, hp]
  dsimp only
  rw [emitStatement, eval_ofInt]
  change Except.ok { e with pc := (Value.mk (.ofInt address.toNat) true).long } = _
  rw [Value.long_of rfl, ofInt_toNat]

theorem plan_statement {symbols final : Symbols} {pc next : UInt32} {n length : Nat}
    {size : Option Size} {rest : List Line} {ps : List Placement}
    (hplace : a.place ⟨symbols, false, n⟩ pc st = .ok (size, length, next))
    (hrest : a.plan symbols next rest = .ok (final, ps)) :
    a.plan symbols pc (⟨n, none, some st⟩ :: rest) =
      .ok (final, ⟨⟨n, none, some st⟩, pc, size, length⟩ :: ps) := by
  rw [plan]
  change (a.place _ pc st >>= fun r => a.plan symbols r.2.2 rest >>= _) = _
  rw [hplace]
  change (a.plan symbols next rest >>= _) = _
  rw [hrest]
  rfl

variable {mnemonic : String} {size : Option Size} {operands : List Operand} {ops : Operands}
  {words : List UInt16} {source : String}

section Instruction

variable (hrequest : ∀ scope, a.request scope mnemonic size operands address = .ok (ops, true))

include hrequest

theorem place_instruction (hsize : a.plannedSize mnemonic size ops true = ops.size)
    (hcalc : a.registry.calcSize mnemonic ops a.tier = .ok (2 * words.length)) (scope : Scope) :
    a.place scope address (.instruction mnemonic size operands) =
      .ok (ops.size, 2 * words.length, address + UInt32.ofNat (2 * words.length)) := by
  rw [place, hrequest]
  change (encodeErrorAt scope.line (a.registry.calcSize mnemonic
    { ops with size := a.plannedSize mnemonic size ops true } a.tier) >>= fun length =>
      .ok (a.plannedSize mnemonic size ops true, length, address + UInt32.ofNat length)) = _
  rw [hsize, hcalc]
  rfl

theorem emit_instruction (hencode : a.registry.encode mnemonic ops a.tier = .ok words)
    {symbols : Symbols} {p : Placement} {e : Emission}
    (hp : p.line.statement = some (.instruction mnemonic size operands)) (hsize : p.size = ops.size)
    (hlength : p.length = 2 * words.length) (hpc : e.pc = address) :
    a.emit symbols e p = .ok { e.mark with
      image := e.image.writeWords address words
      pc := address + UInt32.ofNat (2 * words.length) } := by
  rw [emit, hp]
  dsimp only
  rw [emitStatement_instruction, hpc, hrequest, hsize, hlength]
  change (encodeErrorAt p.line.number (a.registry.encode mnemonic ops a.tier) >>= _) = _
  rw [hencode]
  exact if_neg (not_not.mpr rfl)

theorem assemble_at
    (hlines : parseLines source = .ok [⟨1, none, some (.org (.ofInt address.toNat))⟩,
      ⟨2, none, some (.instruction mnemonic size operands)⟩])
    (hsize : a.plannedSize mnemonic size ops true = ops.size)
    (hcalc : a.registry.calcSize mnemonic ops a.tier = .ok (2 * words.length))
    (hencode : a.registry.encode mnemonic ops a.tier = .ok words) :
    a.assemble source =
      .ok ⟨{ Image.empty.writeWords address words with start := some address }, ∅⟩ := by
  have hlast : a.plan ∅ (address + UInt32.ofNat (2 * words.length)) [] = .ok (∅, []) := by rw [plan]
  have hplan : a.plan ∅ 0 _ = .ok _ := plan_statement (n := 1) (place_origin _ _)
    (plan_statement (n := 2) (place_instruction hrequest hsize hcalc _) hlast)
  rw [assemble_eq hlines hplan, List.foldlM_cons, emit_origin rfl]
  change (List.foldlM (a.emit ∅) { pc := address } _ >>= _) = _
  rw [List.foldlM_cons, emit_instruction hrequest hencode rfl rfl rfl rfl]
  rfl

end Instruction

section Decode

variable {tier : Tier} {opcode : UInt16} {exts : List UInt16} {d : Decoded} {c : Cursor}
  (h : Registry.full.decode tier (.ofWords opcode exts address) .start = .ok (some d) c)
  (hshown : ∀ ea ∈ d.operands, ea.IsShown)

include h hshown

theorem parseLines_of_decode : parseLines (sourceAt address d.text) =
    .ok [⟨1, none, some (.org (.ofInt address.toNat))⟩,
      ⟨2, none, some (.instruction d.mnemonic d.size (d.operands.map d.written))⟩] := by
  obtain ⟨x, hlookup, hdecode⟩ := Registry.of_decode_some h
  have hname : IsMnemonic d.mnemonic := Catalogue.isMnemonic x.1 (Registry.of_lookup_full hlookup).1
    _ (Registry.mem_names_of_decode hlookup hdecode)
  have hshows (ea : Ea) (hea : ea ∈ d.operands) : Decoded.Shows ea :=
    Registry.shows_of_decode hlookup hdecode hea (hshown ea hea)
  exact parseLines_sourceAt (Decoded.text_subset hname hshows) (Decoded.parse_text hname hshows 2)

theorem nonneg_of_assemble {a : Assembler} {program : Program}
    (hprogram : a.assemble (sourceAt address d.text) = .ok program) {v : Int16}
    (hv : .absShort v ∈ d.operands) : 0 ≤ v := by
  rw [assemble] at hprogram
  obtain ⟨lines, hlines, hprogram⟩ := except_bind_eq_ok.1 hprogram
  obtain rfl := Except.ok.inj ((parseLines_of_decode h hshown).symm.trans hlines)
  obtain ⟨⟨final, ps⟩, hplan, -⟩ := except_bind_eq_ok.1 hprogram
  obtain ⟨_, _, _, next, _, -, -, -, hplan, -⟩ := plan_cons hplan
  obtain ⟨_, _, _, _, _, -, -, hplace, -, -⟩ := plan_cons hplan
  have hplace := hplace _ rfl
  rw [place] at hplace
  obtain ⟨⟨ops, known⟩, hrequest, -⟩ := except_bind_eq_ok.1 hplace
  obtain ⟨-, rs, hrs, -, -⟩ := request_eq_ok.1 hrequest
  obtain ⟨r, hr⟩ := exists_of_mapM hrs (List.mem_map_of_mem hv)
  exact nonneg_of_lower_absShort hr

end Decode

/-- The line that a listing shows for a decoded instruction, assembled at the address of the instruction
on the same tier, gives the words that the instruction was decoded from, and nothing else. This holds of
every instruction whose operands are shown; a negative short address is shown as its 16 bits, and the
assembler takes those for an address that does not fit. -/
theorem assemble_text_of_decode {tier : Tier} {opcode : UInt16} {exts : List UInt16} {d : Decoded}
    {c : Cursor} (h : Registry.full.decode tier (.ofWords opcode exts address) .start = .ok (some d) c)
    (hall : c.consumed = exts.length) (hshown : ∀ ea ∈ d.operands, ea.IsShown)
    (hunsigned : ∀ v, .absShort v ∈ d.operands → 0 ≤ v) :
    ∃ program, (Assembler.mk .full tier).assemble (sourceAt address d.text) = .ok program ∧
      ∀ addr, program.image.get? addr =
        (Image.wordBytes (opcode :: exts))[(addr - address).toNat]? := by
  obtain ⟨x, hlookup, hdecode⟩ := Registry.of_decode_some h
  have haddress : d.address = address := (Definition.read_of_decode hdecode).2.1
  have hzero := Decoded.src_ne_zero hshown
  have hrequest := request_of_decode h hshown hunsigned
  rw [haddress] at hrequest
  obtain ⟨y, e, hchoose, hwords⟩ := Registry.words_of_decode h hall hzero
  have hcalc : Registry.full.calcSize d.mnemonic d.toOperands tier =
      .ok (2 * (opcode :: exts).length) := by
    rw [← Encoding.length_words hwords, Registry.calcSize, hchoose]
    rfl
  have hencode : Registry.full.encode d.mnemonic d.toOperands tier = .ok (opcode :: exts) := by
    rw [Registry.encode, hchoose]
    exact hwords
  refine ⟨_, assemble_at hrequest (parseLines_of_decode h hshown) (plannedSize_of_decode h true)
    hcalc hencode, ?_⟩
  intro addr
  have hshort : (Image.wordBytes (opcode :: exts)).length ≤ 2 ^ 32 := by
    have hle := Registry.length_le_of_decode h hall hzero
    rw [Image.length_wordBytes, List.length_cons]
    omega
  change (Image.empty.writeBytes address (Image.wordBytes (opcode :: exts))).get? addr = _
  rw [Image.get?_writeBytes hshort]
  exact Option.or_none

set_option maxRecDepth 1000 in
theorem assemble_text_of_decode_list :
    ∃ d c program, Registry.full.decode .a (.ofWords 0x48D7 [0x2007] 0x1000) .start = .ok (some d) c ∧
      c.consumed = 1 ∧ (∀ ea ∈ d.operands, ea.IsShown) ∧ (∀ v, .absShort v ∈ d.operands → 0 ≤ v) ∧
      d.text = "movem.l d0-d2/a5,(a7)" ∧
      (Assembler.mk .full .a).assemble ".org 0x1000\nmovem.l d0-d2/a5,(a7)\n" = .ok program ∧
      program.image.get? 0x1003 = some 0x07 ∧ program.image.get? 0x1004 = none := by
  have hlookup : Registry.full.lookup 0x48D7 .a = some (Catalogue.all[65], 65) :=
    Registry.lookup_of_claims (by decide) (by decide)
  have hdecode : Registry.full.decode .a (.ofWords 0x48D7 [0x2007] 0x1000) .start = .ok (some
      ⟨⟨some .long, some (.regList 0x2007), some (.indirect 7)⟩, "movem", 0x48D7, 0x1000, 1⟩) ⟨1, 0⟩ := by
    exact Registry.decode_of_read (s := .ofWords 0x48D7 [0x2007] 0x1000) hlookup rfl
  have hshown : ∀ ea ∈ [Ea.regList 0x2007, .indirect 7], ea.IsShown :=
    List.forall_mem_cons.mpr ⟨(by decide : (0x2007 : UInt16) ≠ 0), List.forall_mem_singleton.mpr trivial⟩
  have hunsigned : ∀ v, Ea.absShort v ∈ [Ea.regList 0x2007, .indirect 7] → 0 ≤ v := by simp
  obtain ⟨program, hprogram, himage⟩ := assemble_text_of_decode hdecode rfl hshown hunsigned
  exact ⟨_, _, program, hdecode, rfl, hshown, hunsigned, by decide, hprogram,
    himage 0x1003, himage 0x1004⟩

set_option maxRecDepth 1000 in
/-- A jump to the last 32 kilobytes, by a short address. -/
theorem not_assemble_text_of_decode_jump :
    ∃ d c, Registry.full.decode .a (.ofWords 0x4EF8 [0x8000] 0x1000) .start = .ok (some d) c ∧
      c.consumed = 1 ∧ (∀ ea ∈ d.operands, ea.IsShown) ∧ d.text = "jmp (0x8000).w" ∧
      ∀ program, (Assembler.mk .full .a).assemble ".org 0x1000\njmp (0x8000).w\n" ≠ .ok program := by
  have hlookup : Registry.full.lookup 0x4EF8 .a = some (Catalogue.all[121], 121) :=
    Registry.lookup_of_claims (by decide) (by decide)
  have hdecode : Registry.full.decode .a (.ofWords 0x4EF8 [0x8000] 0x1000) .start = .ok (some
      ⟨⟨none, some (.absShort (-0x8000)), none⟩, "jmp", 0x4EF8, 0x1000, 1⟩) ⟨1, 0⟩ := by
    exact Registry.decode_of_read (s := .ofWords 0x4EF8 [0x8000] 0x1000) hlookup rfl
  have hshown : ∀ ea ∈ [Ea.absShort (-0x8000)], ea.IsShown := List.forall_mem_singleton.mpr trivial
  refine ⟨_, _, hdecode, rfl, hshown, by decide, ?_⟩
  intro program hprogram
  exact absurd (nonneg_of_assemble hdecode hshown hprogram (List.mem_singleton_self _)) (by decide)

end Assembler

end ColdFire
