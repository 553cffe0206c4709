import ColdFire.Assembly.Operand
import ColdFire.Operand.Text
import ColdFire.Proofs.Assembly.Numeral

namespace ColdFire

open Text

theorem forall_lt_eight {P : UInt8 → Prop} (h : ∀ k < 8, P (UInt8.ofNat k)) {r : UInt8}
    (hr : r < 8) : P r := by
  have := h r.toNat hr
  rwa [UInt8.ofNat_toNat] at this

theorem toString_text (s : String) : toString s = s := rfl

def regDigit (r : UInt8) : Char := Nat.digitChar r.toNat

theorem toList_toString_reg {r : UInt8} (hr : r < 8) : (toString r).toList = [regDigit r] := by
  have hlt : r.toNat < 10 := Nat.lt_trans (UInt8.lt_iff_toNat_lt.mp hr) (by decide)
  change (Nat.repr r.toNat).toList = _
  rw [Nat.toList_repr, Nat.toDigits_of_lt_base hlt, regDigit]

theorem regDigit_mem_plain {r : UInt8} (hr : r < 8) : regDigit r ∈ plain :=
  digitChar_mem_plain _ (Nat.lt_trans hr (by decide))

/-- The number of the index register exists, and its scale has a code. -/
structure IndexReg.Exists (ix : IndexReg) : Prop where
  reg : ix.reg < 8
  scale : ix.scale ∈ [1, 2, 4, 8]

namespace IndexReg

def chars (ix : IndexReg) : List Char :=
  [if ix.addr then 'a' else 'd', regDigit ix.reg, '.', if ix.long then 'l' else 'w'] ++
    if ix.scale = 1 then [] else ['*', Nat.digitChar ix.scale.toNat]

theorem toList_text {ix : IndexReg} (h : ix.Exists) : ix.text.toList = ix.chars := by
  have hscale : (toString ix.scale).toList = [Nat.digitChar ix.scale.toNat] := by
    have hlt : ix.scale.toNat < 10 := by
      have hall : ∀ scale ∈ ([1, 2, 4, 8] : List UInt8), scale.toNat < 10 :=
        List.all_iff_forall_prop.mp (by decide)
      exact hall _ h.scale
    change (Nat.repr ix.scale.toNat).toList = _
    rw [Nat.toList_repr, Nat.toDigits_of_lt_base hlt]
  have hreg := toList_toString_reg h.reg
  by_cases hone : ix.scale = 1
  · cases haddr : ix.addr <;> cases hlong : ix.long <;>
      simp [text, chars, haddr, hlong, hone, String.toList_append, hreg, toString_text]
  · cases haddr : ix.addr <;> cases hlong : ix.long <;>
      simp [text, chars, haddr, hlong, hone, String.toList_append, hreg, hscale, toString_text]

end IndexReg

namespace Assembly

namespace Register

variable {c : Char} {cs : List Char} {r : UInt8}

theorem number?_regDigit (hr : r < 8) : number? (regDigit r) = some r :=
  forall_lt_eight (P := fun r => number? (regDigit r) = some r) (by decide) hr

@[simp] theorem ofName?_addr (hr : r < 8) : ofName? ['a', regDigit r] = some ⟨true, r⟩ := by
  rw [ofName?, number?_regDigit hr]
  rfl

theorem mem_plain_of_number? {n : UInt8} (h : number? c = some n) : c ∈ plain := by
  unfold number? at h
  split at h
  · rename_i hc
    have hdigits : ∀ k < 56, 48 ≤ k → Char.ofNat k ∈ plain := by decide
    rw [← Char.ofNat_toNat c]
    exact hdigits c.toNat (Nat.lt_succ_of_le hc.2) hc.1
  · cases h

theorem subset_plain_of_ofName? {reg : Register} (h : ofName? cs = some reg) : cs ⊆ plain := by
  unfold ofName? at h
  split at h
  · decide
  · decide
  · obtain ⟨n, hn, -⟩ := Option.map_eq_some_iff.mp h
    simpa using ⟨by decide, mem_plain_of_number? hn⟩
  · obtain ⟨n, hn, -⟩ := Option.map_eq_some_iff.mp h
    simpa using ⟨by decide, mem_plain_of_number? hn⟩
  · cases h

theorem ofName?_eq_none (hc : c ∈ cs) (hplain : c ∉ plain) : ofName? cs = none := by
  cases h : ofName? cs with
  | none => rfl
  | some reg => exact absurd (subset_plain_of_ofName? h hc) hplain

theorem ofName?_eq_none_of_head (hc : c ≠ 's' ∧ c ≠ 'f' ∧ c ≠ 'd' ∧ c ≠ 'a') :
    ofName? (c :: cs) = none := by
  obtain ⟨hs, hf, hd, ha⟩ := hc
  unfold ofName?
  split
  all_goals simp_all

end Register

namespace Operand

variable {c : Char} {cs inner base : List Char} {more : List (List Char)} {r : UInt8}

def specialNames : List (List Char) :=
  ["sr", "ccr", "usp", "dc", "ic", "bc"].map String.toList ++
    ControlRegister.table.map fun entry => entry.2.toList

theorem special?_eq_none (h : cs ⊆ ink) (hnames : cs ∉ specialNames) : special? cs = none := by
  have hliteral (name : String) (hname : name.toList ∈ specialNames) : String.ofList cs ≠ name := by
    rintro rfl
    rw [String.toList_ofList] at hname
    exact hnames hname
  have hcode : ControlRegister.code? (String.ofList cs) = none := by
    rw [ControlRegister.code?, String.toList_ofList, lower_of_ink h, Option.map_eq_none_iff,
      List.find?_eq_none]
    intro entry hentry heq
    refine hnames (List.mem_append_right _ (List.mem_map.mpr ⟨entry, hentry, ?_⟩))
    exact eq_of_beq heq
  unfold special?
  split
  case h_7 => rw [hcode]; rfl
  all_goals exact absurd ‹_› (hliteral _ (by decide))

theorem special?_of_mark (h : cs ⊆ ink) (hc : c ∈ cs) (hplain : c ∉ plain) : special? cs = none := by
  have hnames : ∀ name ∈ specialNames, name ⊆ plain := by decide
  exact special?_eq_none h fun hmem => hplain (hnames cs hmem hc)

theorem ofName?_numeral {v : Int} (h : Numeral cs v) : Register.ofName? cs = none := by
  obtain ⟨c, rest, rfl, hc⟩ := h.head
  apply Register.ofName?_eq_none_of_head
  rcases hc with hdigit | rfl
  · refine ⟨?_, ?_, ?_, ?_⟩ <;> (rintro rfl; cases hdigit)
  · decide

theorem subset_ink_of_numeral {v : Int} (h : Numeral cs v) : cs ⊆ ink :=
  List.Subset.trans h.subset (by decide)

theorem special?_of_numeral {v : Int} (h : Numeral cs v) : special? cs = none := by
  have hnames : ∀ name ∈ specialNames, name.head?.all (fun c => !(c.isDigit || c == '-')) = true := by
    decide
  obtain ⟨c, rest, rfl, hc⟩ := h.head
  refine special?_eq_none (List.Subset.trans h.subset (by decide)) fun hmem => ?_
  have hfirst : (!(c.isDigit || c == '-')) = true := hnames _ hmem
  rw [Bool.not_eq_true', Bool.or_eq_false_iff, beq_eq_false_iff_ne] at hfirst
  rcases hc with hc | hc
  · exact absurd (hfirst.1.symm.trans hc) Bool.false_ne_true
  · exact hfirst.2 hc

theorem parse_of_ink (h : c :: cs ⊆ ink) (hc : c ≠ '#') : parse (c :: cs) = parsePlain (c :: cs) := by
  unfold parse
  rw [trim_of_ink h]
  split
  · cases ‹_ = []›
  · rename_i heq
    exact absurd (List.cons.inj heq).1 hc
  · rfl

theorem parsePlain_eq_memory (h : cs ⊆ ink) (hc : c ∈ cs) (hplain : c ∉ plain) (hpair : ':' ∉ cs)
    (hlist : listOf? cs = none) : parsePlain cs = memory cs := by
  have hcut : cutAt? (· == ':') cs = none := by
    apply cutAt?_eq_none
    intro d hd
    rw [beq_eq_false_iff_ne]
    rintro rfl
    exact hpair hd
  unfold parsePlain
  simp only [lower_of_ink h, Register.ofName?_eq_none hc hplain, special?_of_mark h hc hplain, hcut,
    hlist]

theorem range?_eq_none (hc : c ∈ cs) (hplain : c ∉ plain) (hminus : c ≠ '-')
    (hblank : isBlank c = false) : range? cs = none := by
  unfold range?
  split
  · rename_i first last hcut
    obtain ⟨-, d, hd, rfl⟩ := of_cutAt? hcut
    rw [beq_iff_eq] at hd
    rw [List.mem_append, List.mem_cons] at hc
    rcases hc with hfirst | rfl | hlast
    · rw [Register.ofName?_eq_none (mem_trim hfirst hblank) hplain]
      rfl
    · exact absurd hd hminus
    · rw [Register.ofName?_eq_none (mem_trim hlast hblank) hplain]
      cases Register.ofName? (trim first) <;> rfl
  · rw [Register.ofName?_eq_none hc hplain]
    rfl

theorem listMask?_parenthesis : listMask? ('(' :: cs) = none := by
  obtain ⟨piece, rest, hpieces⟩ :
      ∃ piece rest, pieces (· == '/') ('(' :: cs) = ('(' :: piece) :: rest := pieces_cons rfl
  have hmem : '(' ∈ trim ('(' :: piece) := mem_trim List.mem_cons_self rfl
  rw [listMask?, hpieces, List.foldlM_cons, rangeMask?,
    range?_eq_none hmem (by decide) (by decide) rfl]
  rfl

theorem listOf?_parenthesis : listOf? ('(' :: cs) = none := by
  rw [listOf?, listMask?_parenthesis, ite_self]

theorem parse_parenthesis (h : '(' :: cs ⊆ ink) (hpair : ':' ∉ cs) :
    parse ('(' :: cs) = memory ('(' :: cs) := by
  rw [parse_of_ink h (by decide), parsePlain_eq_memory h List.mem_cons_self (by decide)
    (by simpa using hpair) listOf?_parenthesis]

theorem between?_parenthesis : between? "(" ")" ('(' :: (cs ++ [')'])) = some cs := by
  have hafter : afterMark? ['('] (['('] ++ (cs ++ [')'])) = some (cs ++ [')']) := afterMark?_append
  have hbefore : beforeMark? [')'] (cs ++ [')']) = some cs := beforeMark?_append
  change (afterMark? ['('] ('(' :: (cs ++ [')']))).bind (beforeMark? [')']) = some cs
  rw [List.singleton_append] at hafter
  rw [hafter, Option.bind_some, hbefore]

theorem between?_preDec : between? "-(" ")" ('(' :: cs) = none := rfl

theorem between?_postInc (hc : c ≠ '+') : between? "(" ")+" ('(' :: (cs ++ [c])) = none := by
  have hafter : afterMark? ['('] (['('] ++ (cs ++ [c])) = some (cs ++ [c]) := afterMark?_append
  have hbefore : beforeMark? [')', '+'] (cs ++ [c]) = none := by
    rw [beforeMark?, if_neg]
    simp [List.isSuffixOf, List.reverse_append, hc.symm]
  change (afterMark? ['('] ('(' :: (cs ++ [c]))).bind (beforeMark? [')', '+']) = none
  rw [List.singleton_append] at hafter
  rw [hafter, Option.bind_some, hbefore]

theorem absolute_numeral {v : Int} (h : Numeral cs v) :
    absolute ('(' :: (cs ++ [')'])) = .ok (.ofInt v) := by
  have hink := subset_ink_of_numeral h
  have hbody : '(' :: (cs ++ [')']) ⊆ ink := by
    simpa using ⟨by decide, hink, by decide⟩
  rw [absolute, trim_of_ink hbody]
  simp only [between?_parenthesis, Option.getD_some, lower_of_ink hink, ofName?_numeral h,
    Option.isSome_none, Bool.false_eq_true, if_false, h.parse]

theorem memory_parenthesis (h : '(' :: (cs ++ [c]) ⊆ ink) (hc : c ≠ '+') :
    memory ('(' :: (cs ++ [c])) =
      let operand := '(' :: (cs ++ [c])
      let body := operand.take (operand.length - 2)
      if ['.', 'w'].isSuffixOf operand then (absolute body).map absShort
      else if ['.', 'l'].isSuffixOf operand then (absolute body).map absLong
      else if [')'].isSuffixOf operand then parenthesized operand
      else (Expression.parse operand).map bare := by
  unfold memory
  simp only [lower_of_ink h, between?_preDec, between?_postInc hc]
  rfl

theorem memory_suffix {v : Int} (h : Numeral cs v) (hc : c = 'w' ∨ c = 'l') :
    memory ('(' :: (cs ++ [')', '.', c])) =
      .ok (if c = 'w' then absShort (.ofInt v) else absLong (.ofInt v)) := by
  have hink := subset_ink_of_numeral h
  have hsplit : '(' :: (cs ++ [')', '.', c]) = '(' :: (cs ++ [')', '.'] ++ [c]) := by simp
  have htake : ('(' :: (cs ++ [')', '.'] ++ [c])).take
      (('(' :: (cs ++ [')', '.'] ++ [c])).length - 2) = '(' :: (cs ++ [')']) := by
    have hlen : ('(' :: (cs ++ [')', '.'] ++ [c])).length - 2 = ('(' :: (cs ++ [')'])).length := by
      simp
    rw [hlen, show '(' :: (cs ++ [')', '.'] ++ [c]) = '(' :: (cs ++ [')']) ++ ['.', c] by simp,
      List.take_left]
  rw [hsplit, memory_parenthesis]
  · dsimp only
    rw [htake, absolute_numeral h]
    rcases hc with rfl | rfl <;> simp [List.isSuffixOf, List.reverse_append, Except.map]
  · rcases hc with rfl | rfl <;> simpa using ⟨by decide, hink, by decide⟩
  · rcases hc with rfl | rfl <;> decide

theorem memory_parenthesized (h : cs ⊆ ink) :
    memory ('(' :: (cs ++ [')'])) = parenthesized ('(' :: (cs ++ [')'])) := by
  rw [memory_parenthesis (by simpa using ⟨by decide, h, by decide⟩) (by decide)]
  simp [List.isSuffixOf, List.reverse_append]

theorem parse_bare {v : Int} (h : Numeral cs v) (hplain : cs ⊆ plain) :
    parse cs = .ok (bare (.ofInt v)) := by
  have hink : cs ⊆ ink := List.Subset.trans hplain plain_subset_ink
  have hnot (c : Char) (hc : c ∉ plain) : c ∉ cs := fun hmem => hc (hplain hmem)
  have hcut : cutAt? (· == ':') cs = none := by
    refine cutAt?_eq_none fun d hd => ?_
    rw [beq_eq_false_iff_ne]
    rintro rfl
    exact hnot ':' (by decide) hd
  have hlist : listOf? cs = none := by
    rw [listOf?, if_neg (by simpa using ⟨hnot '/' (by decide), hnot '-' (by decide)⟩)]
  have hbetween (front back : String) (hfront : '(' ∈ front.toList) :
      between? front back cs = none := by
    rw [between?, afterMark?_eq_none hfront (hnot '(' (by decide)), Option.bind_none]
  have hsuffix (mark : List Char) (c : Char) (hc : c ∈ mark) (hmark : c ∉ plain) :
      mark.isSuffixOf cs = false := by
    rw [Bool.eq_false_iff, ne_eq, List.isSuffixOf_iff_suffix]
    exact fun hsuffix => hnot c hmark (hsuffix.subset hc)
  have hmemory : memory cs = .ok (bare (.ofInt v)) := by
    unfold memory
    simp only [lower_of_ink hink, hbetween "-(" ")" (by decide), hbetween "(" ")+" (by decide),
      hsuffix ".w".toList '.' (by decide) (by decide),
      hsuffix ".l".toList '.' (by decide) (by decide), hsuffix [')'] ')' (by decide) (by decide),
      Bool.false_eq_true, if_false, h.parse]
    rfl
  obtain ⟨c, rest, rfl, -⟩ := h.head
  rw [parse_of_ink hink (by rintro rfl; exact hnot '#' (by decide) List.mem_cons_self)]
  unfold parsePlain
  simp only [lower_of_ink hink, ofName?_numeral h, special?_of_numeral h, hcut, hlist, hmemory]

theorem openParenthesis?_parenthesis : openParenthesis? ('(' :: (cs ++ [')'])) = some ([], cs) := by
  rw [openParenthesis?, cutAt?, if_pos (beq_self_eq_true _), Option.map_some]
  dsimp only
  rw [List.dropLast_concat]
  rfl

theorem pieces_comma {parts : List (List Char)} (hne : parts ≠ [])
    (hparts : ∀ x ∈ parts, x ⊆ innerInk) :
    (pieces (· == ',') ([','].intercalate parts)).map trim = parts := by
  have hcomma : ∀ c ∈ innerInk, (c == ',') = false := List.all_iff_forall_prop.mp (by decide)
  rw [pieces_intercalate (p := (· == ',')) hne
    (fun x hx c hc => hcomma c (hparts x hx hc)) (beq_self_eq_true _)]
  exact (List.map_congr_left fun x hx =>
    trim_of_ink (List.Subset.trans (hparts x hx) innerInk_subset_ink)).trans (List.map_id' _)

/-- Some pieces with commas between them, in parentheses. -/
def enclosed (parts : List (List Char)) : List Char := '(' :: ([','].intercalate parts ++ [')'])

theorem intercalate_subset_inner {parts : List (List Char)} (hparts : ∀ x ∈ parts, x ⊆ innerInk) :
    [','].intercalate parts ⊆ ',' :: innerInk :=
  intercalate_subset List.mem_cons_self fun x hx =>
    List.Subset.trans (hparts x hx) (List.subset_cons_self _ _)

/-- The assembler takes enclosed pieces for an operand in memory. -/
theorem parse_enclosed {parts : List (List Char)} (hparts : ∀ x ∈ parts, x ⊆ innerInk) :
    parse (enclosed parts) = parenthesized (enclosed parts) := by
  have hinner := intercalate_subset_inner hparts
  have hink : [','].intercalate parts ⊆ ink := List.Subset.trans hinner (by decide)
  have hpair : ':' ∉ [','].intercalate parts ++ [')'] := by
    rw [List.mem_append, not_or]
    exact ⟨fun hc => absurd (hinner hc) (by decide), by decide⟩
  rw [enclosed, parse_parenthesis (by simpa using ⟨by decide, hink, by decide⟩) hpair,
    memory_parenthesized hink]

variable {part : List Char}

theorem parenthesized_disp {v : Int} (h : Numeral part v)
    (hparts : ∀ x ∈ base :: more, x ⊆ innerInk) :
    parenthesized (enclosed (part :: base :: more)) =
      based (enclosed (part :: base :: more)) (some (.ofInt v)) base more := by
  have hinner : part ⊆ innerInk := List.Subset.trans h.subset (by decide)
  have hbase : isBase part = false := by
    have hpc : part ≠ ['p', 'c'] := by
      obtain ⟨c, rest, rfl, hc⟩ := h.head
      rintro ⟨⟩
      exact absurd hc (by decide)
    rw [isBase, lower_of_ink (subset_ink_of_numeral h), Register.address?, ofName?_numeral h]
    simpa using hpc
  unfold parenthesized
  rw [enclosed, openParenthesis?_parenthesis]
  dsimp only
  rw [pieces_comma (List.cons_ne_nil _ _) (List.forall_mem_cons.mpr ⟨hinner, hparts⟩)]
  dsimp only
  rw [if_neg (by simp), hbase, if_neg Bool.false_ne_true, h.parse]
  rfl

section Based

variable {operand : List Char} {e : Expression} {ix : IndexReg}

theorem addr_subset (hr : r < 8) : ['a', regDigit r] ⊆ innerInk := by
  simpa using ⟨by decide, plain_subset_innerInk (regDigit_mem_plain hr)⟩

theorem address?_lower (hr : r < 8) : Register.address? (lower ['a', regDigit r]) = some r := by
  rw [lower_of_ink (List.Subset.trans (addr_subset hr) innerInk_subset_ink), Register.address?,
    Register.ofName?_addr hr]
  rfl

theorem lower_addr_ne (hr : r < 8) : lower ['a', regDigit r] ≠ ['p', 'c'] := by
  rw [lower_of_ink (List.Subset.trans (addr_subset hr) innerInk_subset_ink)]
  simp

theorem readIndex_text (h : ix.Exists) :
    ix.text.toList ⊆ innerInk ∧ readIndex ix.text.toList = .ok ix := by
  have hall : ∀ addr long : Bool, ∀ scale ∈ [1, 2, 4, 8], ∀ k < 8,
      IndexReg.chars ⟨addr, UInt8.ofNat k, long, scale⟩ ⊆ innerInk ∧
        readIndex (IndexReg.chars ⟨addr, UInt8.ofNat k, long, scale⟩) =
          .ok ⟨addr, UInt8.ofNat k, long, scale⟩ := by
    decide +kernel
  rw [IndexReg.toList_text h]
  obtain ⟨addr, reg, long, scale⟩ := ix
  exact forall_lt_eight (P := fun reg => IndexReg.chars ⟨addr, reg, long, scale⟩ ⊆ innerInk ∧
    readIndex (IndexReg.chars ⟨addr, reg, long, scale⟩) = .ok ⟨addr, reg, long, scale⟩)
    (hall addr long scale h.scale) h.reg

theorem readIndexPart_text (h : ix.Exists) :
    readIndexPart operand [ix.text.toList] = .ok (some ix) := by
  obtain ⟨hinner, hread⟩ := readIndex_text h
  rw [readIndexPart, lower_of_ink (List.Subset.trans hinner innerInk_subset_ink), hread]
  rfl

theorem based_addr {ix : Option IndexReg} (hr : r < 8) (hmore : readIndexPart operand more = .ok ix) :
    based operand (some e) ['a', regDigit r] more = .ok (ix.elim (.disp e r) (index e r)) := by
  rw [based, hmore]
  have hne := lower_addr_ne hr
  have hreg := address?_lower hr
  cases ix <;> simp [hne, hreg]

theorem based_pc : based operand (some e) ['p', 'c'] [] = .ok (pcDisp e) := rfl

theorem based_pc_index (hix : ix.Exists) :
    based operand (some e) ['p', 'c'] [ix.text.toList] = .ok (pcIndex e ix) := by
  rw [based, readIndexPart_text hix]
  rfl

end Based

end Operand

end Assembly

end ColdFire
