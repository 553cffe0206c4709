import ColdFire.Proofs.Assembly.RegisterList

namespace ColdFire

open Text

def SpecialReg.Named : SpecialReg → Prop
  | sr | ccr | usp => True
  | control code => (ControlRegister.name? code).isSome = true
  | cache selector => selector ∈ [1, 2, 3]

theorem ControlRegister.forall_named {P : UInt16 → Prop} (h : ∀ entry ∈ table, P entry.1)
    {code : UInt16} (hname : (name? code).isSome = true) : P code := by
  obtain ⟨name, hname⟩ := Option.isSome_iff_exists.mp hname
  obtain ⟨entry, hfind, -⟩ := Option.map_eq_some_iff.mp hname
  have hcode := List.find?_some hfind
  exact eq_of_beq hcode ▸ h entry (List.mem_of_find?_eq_some hfind)

/-- What the assembler reads in the text of a list of registers: that register, if there is only
one. -/
def RegList.written (mask : UInt16) : Assembly.Operand :=
  match members mask with
  | [i] => if i < 8 then .dataReg (UInt8.ofNat i) else .addrReg (UInt8.ofNat (i - 8))
  | _ => .regList mask

namespace Ea

/-- The registers that an operand names exist, and a listing shows them by name. A displacement of a
branch is no operand by itself: it is shown as the address that it leads to. -/
def Legible : Ea → Prop
  | dataReg r | addrReg r | indirect r | postInc r | preDec r | disp r _ => r < 8
  | index r _ ix => r < 8 ∧ ix.Exists
  | pcIndex _ ix => ix.Exists
  | regPair w x => w < 8 ∧ x < 8
  | regList mask => mask ≠ 0
  | relative _ => False
  | special reg => reg.Named
  | absShort _ | absLong _ | pcDisp _ | immediate _ => True

open Assembly in
/-- What the assembler reads in the text of an operand. A short address comes as its 16 bits, without
a sign. -/
def written : Ea → Operand
  | dataReg r => .dataReg r
  | addrReg r => .addrReg r
  | indirect r => .indirect r
  | postInc r => .postInc r
  | preDec r => .preDec r
  | disp r d => .disp (.ofInt d.toInt) r
  | index r d ix => .index (.ofInt d.toInt) r ix
  | absShort v => .absShort (.ofInt v.toUInt16.toNat)
  | absLong v => .absLong (.ofInt v.toNat)
  | pcDisp d => .pcDisp (.ofInt d.toInt)
  | pcIndex d ix => .pcIndex (.ofInt d.toInt) ix
  | immediate v => .immediate (.ofInt v.toNat)
  | regList mask => RegList.written mask
  | relative off => .bare (.ofInt off.toInt)
  | regPair w x => .regPair w x
  | special reg => .special reg

end Ea

namespace RegList

variable {mask : UInt16} {i : Nat}

theorem members_ne_nil (h : mask ≠ 0) : members mask ≠ [] := by
  intro hnil
  rw [← maskOf_members mask, hnil] at h
  exact h rfl

theorem toList_text_single (h : members mask = [i]) : (text mask).toList = regChars i := by
  rw [toList_text, h]
  simp [runs, runChars, List.intercalate]

theorem mark_mem_text (hne : members mask ≠ []) (h : ∀ i, members mask ≠ [i]) :
    '/' ∈ (text mask).toList ∨ '-' ∈ (text mask).toList := by
  obtain ⟨-, hspell⟩ := of_runs_members mask
  rw [toList_text]
  match hruns : runs (members mask) with
  | [] => exact absurd hruns (runs_ne_nil hne)
  | [(i, j)] =>
    rw [hruns] at hspell
    have hij : i ≠ j := by
      rintro rfl
      refine h i ?_
      rw [← hspell]
      simp [spell]
    exact .inr (by simp [runChars, hij, List.intercalate])
  | _ :: _ :: _ => exact .inl (by simp [List.intercalate_cons_cons])

theorem text_subset (mask : UInt16) : (text mask).toList ⊆ '/' :: '-' :: plain := by
  obtain ⟨hruns, -⟩ := of_runs_members mask
  rw [toList_text]
  refine intercalate_subset List.mem_cons_self fun part hpart => ?_
  obtain ⟨run, hrun, rfl⟩ := List.mem_map.mp hpart
  exact List.Subset.trans (rangeMask?_runChars (hruns run hrun)).1 (List.subset_cons_self _ _)

end RegList

namespace Assembly.Operand

variable {r w x : UInt8} {mask : UInt16} {ix : IndexReg}

theorem parsePlain_list {c : Char} {cs : List Char} (h : cs ⊆ ink) (hpair : ':' ∉ cs) (hc : c ∈ cs)
    (hmark : c = '/' ∨ c = '-') (hlist : listMask? cs = some mask) :
    parsePlain cs = .ok (regList mask) := by
  have hplain : c ∉ plain := by rcases hmark with rfl | rfl <;> decide
  have hcut : cutAt? (· == ':') cs = none := by
    refine cutAt?_eq_none fun d hd => ?_
    rw [beq_eq_false_iff_ne]
    rintro rfl
    exact hpair hd
  have hlooks : (cs.contains '/' || cs.contains '-') = true := by
    rcases hmark with rfl | rfl <;> simp [hc]
  unfold parsePlain listOf?
  simp only [lower_of_ink h, Register.ofName?_eq_none hc hplain, special?_of_mark h hc hplain, hcut,
    hlooks, if_true, hlist]

theorem parse_regList (hmask : mask ≠ 0) :
    parse (RegList.text mask).toList = .ok (RegList.written mask) := by
  have hne := RegList.members_ne_nil hmask
  -- a list of one register is written like that register, and read as it
  by_cases hsingle : ∃ i, RegList.members mask = [i]
  · obtain ⟨i, hi⟩ := hsingle
    have hlt : i < 16 := (RegList.mem_members.1 (hi ▸ List.mem_singleton_self i)).1
    have hall : ∀ i < 16, parse (RegList.regChars i) =
        .ok (if i < 8 then dataReg (UInt8.ofNat i) else addrReg (UInt8.ofNat (i - 8))) := by
      decide
    rw [RegList.toList_text_single hi, hall i hlt, RegList.written, hi]
  · have hsubset := RegList.text_subset mask
    have hink : (RegList.text mask).toList ⊆ ink := List.Subset.trans hsubset (by decide)
    have hwritten : RegList.written mask = regList mask := by
      unfold RegList.written
      split
      · exact absurd ⟨_, ‹_›⟩ hsingle
      · rfl
    obtain ⟨c, hc, hmark⟩ : ∃ c ∈ (RegList.text mask).toList, c = '/' ∨ c = '-' := by
      rcases RegList.mark_mem_text hne fun i hi => hsingle ⟨i, hi⟩ with hc | hc
      · exact ⟨_, hc, .inl rfl⟩
      · exact ⟨_, hc, .inr rfl⟩
    have hplain := parsePlain_list hink (fun h => absurd (hsubset h) (by decide)) hc hmark
      (listMask?_text hne)
    rw [hwritten, ← hplain]
    cases hcs : (RegList.text mask).toList with
    | nil =>
      rw [hcs] at hc
      cases hc
    | cons d ds =>
      rw [hcs] at hsubset hink
      refine parse_of_ink hink ?_
      rintro rfl
      exact absurd (hsubset List.mem_cons_self) (by decide)

theorem parse_special {reg : SpecialReg} (h : reg.Named) :
    parse reg.text.toList = .ok (special reg) := by
  cases reg with
  | sr | ccr | usp => decide +kernel
  | control code =>
    exact ControlRegister.forall_named
      (P := fun code => parse (SpecialReg.control code).text.toList = .ok (special (.control code)))
      (by decide +kernel) h
  | cache selector =>
    have hall : ∀ selector ∈ [1, 2, 3],
        parse (SpecialReg.cache selector).text.toList = .ok (special (.cache selector)) := by
      decide +kernel
    exact hall selector h

end Assembly.Operand

namespace Ea

open Assembly.Operand (enclosed)

def chars : Ea → List Char
  | dataReg r => ['d', regDigit r]
  | addrReg r => ['a', regDigit r]
  | indirect r => enclosed [['a', regDigit r]]
  | postInc r => enclosed [['a', regDigit r]] ++ ['+']
  | preDec r => '-' :: enclosed [['a', regDigit r]]
  | disp r d => enclosed [(toString d.toInt).toList, ['a', regDigit r]]
  | index r d ix => enclosed [(toString d.toInt).toList, ['a', regDigit r], ix.text.toList]
  | absShort v => enclosed [(Text.hex 1 v.toUInt16.toNat).toList] ++ ['.', 'w']
  | absLong v => enclosed [(Text.hex 1 v.toNat).toList] ++ ['.', 'l']
  | pcDisp d => enclosed [(toString d.toInt).toList, ['p', 'c']]
  | pcIndex d ix => enclosed [(toString d.toInt).toList, ['p', 'c'], ix.text.toList]
  | immediate v => '#' :: (Text.hex 1 v.toNat).toList
  | regList mask => (RegList.text mask).toList
  | relative off => (relative off).text.toList
  | regPair w x => ['d', regDigit w, ':', 'd', regDigit x]
  | special reg => reg.text.toList

theorem toList_text {ea : Ea} (h : ea.Legible) : ea.text.toList = ea.chars := by
  cases ea with
  | dataReg r | addrReg r | indirect r | postInc r | preDec r =>
    simp [text, chars, enclosed, toList_toString_reg h, toString_text]
  | disp r d => simp [text, chars, enclosed, toList_toString_reg h, toString_text, List.intercalate]
  | index r d ix =>
    simp [text, chars, enclosed, toList_toString_reg h.1, toString_text, List.intercalate]
  | regPair w x =>
    simp [text, chars, toList_toString_reg h.1, toList_toString_reg h.2, toString_text]
  | absShort _ | absLong _ | pcDisp _ | pcIndex _ _ =>
    simp [text, chars, enclosed, toString_text, List.intercalate]
  | immediate v => simp [text, chars]
  | regList _ | special _ => rfl
  | relative _ => exact h.elim

end Ea

namespace Assembly.Operand

variable {r : UInt8} {ix : IndexReg} {cs : List Char} {v : Int}

theorem numeral_disp (d : Int16) : Numeral (toString d.toInt).toList d.toInt := by
  have hlow := d.le_toInt
  have hhigh := d.toInt_lt
  exact .int (by omega) (by omega)

theorem numeral_indexDisp (d : Int8) : Numeral (toString d.toInt).toList d.toInt := by
  have hlow := d.le_toInt
  have hhigh := d.toInt_lt
  exact .int (by omega) (by omega)

theorem numeral_long (v : UInt32) : Numeral (Text.hex 1 v.toNat).toList v.toNat :=
  .hex (Nat.lt_trans v.toNat_lt (by decide))

theorem numeral_word (v : UInt16) : Numeral (Text.hex 1 v.toNat).toList v.toNat :=
  .hex (Nat.lt_trans v.toNat_lt (by decide))

theorem subset_innerInk_of_numeral (h : Numeral cs v) : cs ⊆ innerInk :=
  List.Subset.trans h.subset (by decide)

theorem pc_subset : ['p', 'c'] ⊆ innerInk := by decide

theorem parse_enclosed_disp {base : List Char} {more : List (List Char)} (h : Numeral cs v)
    (hparts : ∀ x ∈ base :: more, x ⊆ innerInk) :
    parse (enclosed (cs :: base :: more)) =
      based (enclosed (cs :: base :: more)) (some (.ofInt v)) base more := by
  rw [parse_enclosed (List.forall_mem_cons.mpr ⟨subset_innerInk_of_numeral h, hparts⟩),
    parenthesized_disp h hparts]

theorem parse_disp (h : Numeral cs v) (hr : r < 8) :
    parse (enclosed [cs, ['a', regDigit r]]) = .ok (.disp (.ofInt v) r) := by
  rw [parse_enclosed_disp h (List.forall_mem_singleton.mpr (addr_subset hr)), based_addr hr rfl]
  rfl

theorem parse_index (h : Numeral cs v) (hr : r < 8) (hix : ix.Exists) :
    parse (enclosed [cs, ['a', regDigit r], ix.text.toList]) = .ok (index (.ofInt v) r ix) := by
  have hparts : ∀ x ∈ [['a', regDigit r], ix.text.toList], x ⊆ innerInk :=
    List.forall_mem_cons.mpr
      ⟨addr_subset hr, List.forall_mem_singleton.mpr (readIndex_text hix).1⟩
  rw [parse_enclosed_disp h hparts, based_addr hr (readIndexPart_text hix)]
  rfl

theorem parse_pcDisp (h : Numeral cs v) :
    parse (enclosed [cs, ['p', 'c']]) = .ok (pcDisp (.ofInt v)) := by
  rw [parse_enclosed_disp h (List.forall_mem_singleton.mpr pc_subset), based_pc]

theorem parse_pcIndex (h : Numeral cs v) (hix : ix.Exists) :
    parse (enclosed [cs, ['p', 'c'], ix.text.toList]) = .ok (pcIndex (.ofInt v) ix) := by
  have hparts : ∀ x ∈ [['p', 'c'], ix.text.toList], x ⊆ innerInk :=
    List.forall_mem_cons.mpr ⟨pc_subset, List.forall_mem_singleton.mpr (readIndex_text hix).1⟩
  rw [parse_enclosed_disp h hparts, based_pc_index hix]

theorem parse_suffix {c : Char} (h : Numeral cs v) (hc : c = 'w' ∨ c = 'l') :
    parse (enclosed [cs] ++ ['.', c]) =
      .ok (if c = 'w' then absShort (.ofInt v) else absLong (.ofInt v)) := by
  have hinner := subset_innerInk_of_numeral h
  have hshape : enclosed [cs] ++ ['.', c] = '(' :: (cs ++ [')', '.', c]) := by
    simp [enclosed, List.intercalate]
  have hink : '(' :: (cs ++ [')', '.', c]) ⊆ ink := by
    rcases hc with rfl | rfl <;>
      simpa using
        ⟨by decide, List.Subset.trans hinner innerInk_subset_ink, by decide, by decide, by decide⟩
  have hpair : ':' ∉ cs ++ [')', '.', c] := by
    rw [List.mem_append, not_or]
    refine ⟨fun hmem => absurd (hinner hmem) (by decide), ?_⟩
    rcases hc with rfl | rfl <;> decide
  rw [hshape, parse_parenthesis hink hpair, memory_suffix h hc]

theorem parse_immediate (h : Numeral cs v) : parse ('#' :: cs) = .ok (immediate (.ofInt v)) := by
  have hink : '#' :: cs ⊆ ink := by
    rw [List.cons_subset]
    exact ⟨by decide, List.Subset.trans (subset_innerInk_of_numeral h) innerInk_subset_ink⟩
  unfold parse
  rw [trim_of_ink hink]
  change (Expression.parse cs).map immediate = _
  rw [h.parse]
  rfl

/-- The assembler reads an operand from its text. -/
theorem parse_text {ea : Ea} (h : ea.Legible) : parse ea.text.toList = .ok ea.written := by
  rw [Ea.toList_text h]
  cases ea with
  | dataReg r =>
    exact forall_lt_eight (P := fun r => parse (Ea.dataReg r).chars = .ok (dataReg r))
      (by decide) h
  | addrReg r =>
    exact forall_lt_eight (P := fun r => parse (Ea.addrReg r).chars = .ok (addrReg r))
      (by decide) h
  | indirect r =>
    exact forall_lt_eight (P := fun r => parse (Ea.indirect r).chars = .ok (indirect r))
      (by decide) h
  | postInc r =>
    exact forall_lt_eight (P := fun r => parse (Ea.postInc r).chars = .ok (postInc r))
      (by decide) h
  | preDec r =>
    exact forall_lt_eight (P := fun r => parse (Ea.preDec r).chars = .ok (preDec r))
      (by decide) h
  | disp r d => exact parse_disp (numeral_disp d) h
  | index r d ix => exact parse_index (numeral_indexDisp d) h.1 h.2
  | absShort v => exact parse_suffix (numeral_word _) (.inl rfl)
  | absLong v => exact parse_suffix (numeral_long v) (.inr rfl)
  | pcDisp d => exact parse_pcDisp (numeral_disp d)
  | pcIndex d ix => exact parse_pcIndex (numeral_indexDisp d) h
  | immediate v => exact parse_immediate (numeral_long v)
  | regList mask => exact parse_regList h
  | relative _ => exact h.elim
  | regPair w x =>
    have hall : ∀ w < 8, ∀ x < 8, parse (Ea.regPair (UInt8.ofNat w) (UInt8.ofNat x)).chars =
        .ok (regPair (UInt8.ofNat w) (UInt8.ofNat x)) := by
      decide
    exact forall_lt_eight (P := fun w => parse (Ea.regPair w x).chars = .ok (regPair w x))
      (fun k hk => forall_lt_eight
        (P := fun x => parse (Ea.regPair (UInt8.ofNat k) x).chars = .ok (regPair (UInt8.ofNat k) x))
        (hall k hk) h.2) h.1
  | special reg => exact parse_special h

end Assembly.Operand

end ColdFire
