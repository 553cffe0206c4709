import ColdFire.Proofs.Assembly.OperandText

namespace ColdFire

open Text

namespace Assembly

namespace Operand

/-- Splitting goes over the text and is outside of all parentheses again behind it. -/
def Passed (cs : List Char) : Prop :=
  ∀ held rest, splitFrom 0 false held (cs ++ rest) = splitFrom 0 false (cs.reverse ++ held) rest

variable {cs ds held rest : List Char} {depth : Int32}

theorem splitFrom_outer (h : cs ⊆ outerInk) :
    splitFrom depth false held (cs ++ rest) = splitFrom depth false (cs.reverse ++ held) rest := by
  have hmarks : ∀ c ∈ outerInk, (c == '\'') = false ∧ (c == '(') = false ∧ (c == ')') = false ∧
      (c == ',') = false := List.all_iff_forall_prop.mp (by decide)
  induction cs generalizing held with
  | nil => rfl
  | cons c cs ih =>
    rw [List.cons_subset] at h
    obtain ⟨hquote, hopen, hclose, hcomma⟩ := hmarks c h.1
    rw [List.cons_append, splitFrom]
    simp only [hquote, hopen, hclose, hcomma, Bool.false_and, Bool.false_eq_true, if_false]
    rw [ih h.2, List.reverse_cons, List.append_assoc, List.singleton_append]

theorem splitFrom_inner (hdepth : depth ≠ 0) (h : cs ⊆ ',' :: innerInk) :
    splitFrom depth false held (cs ++ rest) = splitFrom depth false (cs.reverse ++ held) rest := by
  have hmarks : ∀ c ∈ ',' :: innerInk, (c == '\'') = false ∧ (c == '(') = false ∧
      (c == ')') = false := List.all_iff_forall_prop.mp (by decide)
  induction cs generalizing held with
  | nil => rfl
  | cons c cs ih =>
    rw [List.cons_subset] at h
    obtain ⟨hquote, hopen, hclose⟩ := hmarks c h.1
    rw [List.cons_append, splitFrom]
    simp only [hquote, hopen, hclose, beq_eq_false_iff_ne.mpr hdepth, Bool.and_false,
      Bool.false_eq_true, if_false]
    rw [ih h.2, List.reverse_cons, List.append_assoc, List.singleton_append]

theorem Passed.append (hcs : Passed cs) (hds : Passed ds) : Passed (cs ++ ds) := by
  intro held rest
  rw [List.append_assoc, hcs, hds, List.reverse_append, List.append_assoc]

theorem passed_outer (h : cs ⊆ outerInk) : Passed cs := fun _ _ => splitFrom_outer h

theorem passed_enclosed {parts : List (List Char)} (hparts : ∀ x ∈ parts, x ⊆ innerInk) :
    Passed (enclosed parts) := by
  intro held rest
  rw [enclosed, List.cons_append, List.append_assoc, splitFrom]
  simp only [show ('(' == '\'') = false from rfl, beq_self_eq_true, Bool.false_eq_true, if_false,
    if_true]
  -- one level down no comma splits
  rw [splitFrom_inner (by decide) (intercalate_subset_inner hparts), List.singleton_append, splitFrom]
  simp [show (')' == '\'') = false from rfl]

theorem special_text_subset {reg : SpecialReg} (h : reg.Named) : reg.text.toList ⊆ plain := by
  cases reg with
  | sr | ccr | usp => decide +kernel
  | control code =>
    exact ControlRegister.forall_named
      (P := fun code => (SpecialReg.control code).text.toList ⊆ plain) (by decide +kernel) h
  | cache selector =>
    have hall : ∀ selector ∈ [1, 2, 3], (SpecialReg.cache selector).text.toList ⊆ plain := by
      decide +kernel
    exact hall selector h

/-- How the text of an operand is built: with nothing in parentheses, or with pieces in parentheses. A
colon does not come first. -/
inductive Layout : List Char → Prop where
  | outer {c : Char} {cs : List Char} (hc : c ≠ ':') (h : c :: cs ⊆ outerInk) : Layout (c :: cs)
  | inner (front : List Char) (parts : List (List Char)) (back : List Char) (hfront : front ⊆ innerInk)
      (hparts : ∀ x ∈ parts, x ⊆ innerInk) (hback : back ⊆ outerInk) :
      Layout (front ++ enclosed parts ++ back)

namespace Layout

theorem passed (h : Layout cs) : Passed cs := by
  cases h with
  | outer _ h => exact passed_outer h
  | inner front parts back hfront hparts hback =>
    exact ((passed_outer (List.Subset.trans hfront innerInk_subset_outerInk)).append
      (passed_enclosed hparts)).append (passed_outer hback)

theorem subset_ink (h : Layout cs) : cs ⊆ ink := by
  cases h with
  | outer _ h => exact List.Subset.trans h outerInk_subset_ink
  | inner front parts back hfront hparts hback =>
    have hinner : [','].intercalate parts ⊆ ink :=
      intercalate_subset (by decide) fun x hx => List.Subset.trans (hparts x hx) innerInk_subset_ink
    rw [List.append_subset, List.append_subset, enclosed, List.cons_subset, List.append_subset]
    exact ⟨⟨List.Subset.trans hfront innerInk_subset_ink, by decide, hinner, by decide⟩,
      List.Subset.trans hback outerInk_subset_ink⟩

theorem head (h : Layout cs) : ∃ c rest, cs = c :: rest ∧ c ≠ ':' := by
  cases h with
  | outer hc _ => exact ⟨_, _, rfl, hc⟩
  | inner front parts back hfront _ _ =>
    cases front with
    | nil => exact ⟨'(', _, rfl, by decide⟩
    | cons c front =>
      refine ⟨c, _, rfl, ?_⟩
      rintro rfl
      exact absurd (hfront List.mem_cons_self) (by decide)

theorem enclosed {parts : List (List Char)} (hparts : ∀ x ∈ parts, x ⊆ innerInk) :
    Layout (enclosed parts) := by
  have h := inner [] parts [] (List.nil_subset _) hparts (List.nil_subset _)
  rwa [List.nil_append, List.append_nil] at h

theorem of_parse {op : Operand} (h : parse cs = .ok op) (hcs : cs ⊆ outerInk) (hcolon : ':' ∉ cs) :
    Layout cs := by
  cases cs with
  | nil => cases h
  | cons c cs => exact outer (fun hc => hcolon (hc ▸ List.mem_cons_self)) hcs

theorem text {ea : Ea} (h : ea.Legible) : Layout ea.text.toList := by
  rw [Ea.toList_text h]
  have hreg {r : UInt8} (hr : r < 8) : regDigit r ∈ outerInk :=
    innerInk_subset_outerInk (plain_subset_innerInk (regDigit_mem_plain hr))
  have haddr {r : UInt8} (hr : r < 8) : ∀ x ∈ [['a', regDigit r]], x ⊆ innerInk :=
    List.forall_mem_singleton.mpr (addr_subset hr)
  cases ea with
  | dataReg r | addrReg r =>
    refine outer (by decide) ?_
    simpa [Ea.chars] using ⟨by decide, hreg h⟩
  | regPair w x =>
    refine outer (by decide) ?_
    simpa [Ea.chars] using ⟨by decide, hreg h.1, by decide, by decide, hreg h.2⟩
  | indirect r => exact enclosed (haddr h)
  | postInc r => exact inner [] _ ['+'] (List.nil_subset _) (haddr h) (by decide)
  | preDec r =>
    have hinner := inner ['-'] _ [] (by decide) (haddr h) (List.nil_subset _)
    rwa [List.append_nil] at hinner
  | disp r d =>
    exact enclosed (List.forall_mem_cons.mpr
      ⟨subset_innerInk_of_numeral (numeral_disp d), haddr h⟩)
  | index r d ix =>
    exact enclosed (List.forall_mem_cons.mpr ⟨subset_innerInk_of_numeral (numeral_indexDisp d),
      List.forall_mem_cons.mpr
        ⟨addr_subset h.1, List.forall_mem_singleton.mpr (readIndex_text h.2).1⟩⟩)
  | absShort v =>
    exact inner [] _ ['.', 'w'] (List.nil_subset _)
      (List.forall_mem_singleton.mpr (subset_innerInk_of_numeral (numeral_word _))) (by decide)
  | absLong v =>
    exact inner [] _ ['.', 'l'] (List.nil_subset _)
      (List.forall_mem_singleton.mpr (subset_innerInk_of_numeral (numeral_long v))) (by decide)
  | pcDisp d =>
    exact enclosed (List.forall_mem_cons.mpr ⟨subset_innerInk_of_numeral (numeral_disp d),
      List.forall_mem_singleton.mpr pc_subset⟩)
  | pcIndex d ix =>
    exact enclosed (List.forall_mem_cons.mpr ⟨subset_innerInk_of_numeral (numeral_indexDisp d),
      List.forall_mem_cons.mpr
        ⟨pc_subset, List.forall_mem_singleton.mpr (readIndex_text h).1⟩⟩)
  | immediate v =>
    refine outer (by decide) (List.cons_subset.mpr ⟨by decide, ?_⟩)
    exact List.Subset.trans (subset_innerInk_of_numeral (numeral_long v)) innerInk_subset_outerInk
  | regList mask =>
    exact of_parse (parse_regList h) (List.Subset.trans (RegList.text_subset _) (by decide))
      fun hmem => absurd (RegList.text_subset _ hmem) (by decide)
  | relative _ => exact h.elim
  | special reg =>
    have hplain := special_text_subset h
    exact of_parse (parse_special h) (List.Subset.trans hplain (by decide))
      fun hmem => absurd (hplain hmem) (by decide)

end Layout

theorem splitFrom_intercalate {t : List Char} {rest : List (List Char)}
    (h : ∀ u ∈ t :: rest, Layout u) :
    splitFrom 0 false [] ([','].intercalate (t :: rest)) = t :: rest := by
  -- operand by operand, each being passed to the comma behind it
  induction rest generalizing t with
  | nil =>
    have ht := h t List.mem_cons_self
    have hpassed := ht.passed [] []
    rw [List.append_nil, List.append_nil] at hpassed
    rw [List.intercalate_singleton, hpassed, splitFrom, List.reverse_reverse,
      trim_of_ink ht.subset_ink]
  | cons u rest ih =>
    obtain ⟨ht, hrest⟩ := List.forall_mem_cons.mp h
    rw [List.intercalate_cons_cons, List.append_assoc, ht.passed, List.append_nil,
      List.singleton_append, splitFrom]
    simp [show (',' == '\'') = false from rfl, ih hrest, trim_of_ink ht.subset_ink]

/-- Operands that are joined with commas are split into the same operands. -/
theorem split_intercalate {texts : List (List Char)} (h : ∀ t ∈ texts, Layout t) :
    split ([','].intercalate texts) = texts := by
  cases texts with
  | nil => rfl
  | cons t rest =>
    obtain ⟨c, cs, rfl, -⟩ := (h t List.mem_cons_self).head
    unfold split
    rw [splitFrom_intercalate h]

/-- The text of an operand is read as that operand, a list of at least two registers as that list, and
the texts of two operands are found on both sides of the comma between them. -/
theorem parse_split_text {ea other : Ea} (h : ea.Legible) (hother : other.Legible) :
    parse ea.text.toList = .ok ea.written ∧
    (∀ mask, ea = .regList mask → 2 ≤ (RegList.members mask).length →
      ea.written = .regList mask) ∧
    split (ea.text ++ "," ++ other.text).toList = [ea.text.toList, other.text.toList] := by
  refine ⟨parse_text h, ?_, ?_⟩
  · rintro mask rfl hmembers
    change RegList.written mask = _
    unfold RegList.written
    split
    · rename_i i hi
      rw [hi, List.length_singleton] at hmembers
      omega
    · rfl
  · have hlayout : ∀ t ∈ [ea.text.toList, other.text.toList], Layout t :=
      List.forall_mem_cons.mpr ⟨.text h, List.forall_mem_singleton.mpr (.text hother)⟩
    have hjoined : (ea.text ++ "," ++ other.text).toList =
        [','].intercalate [ea.text.toList, other.text.toList] := by
      rw [String.toList_append, String.toList_append, List.intercalate_cons_cons,
        List.intercalate_singleton]
      rfl
    rw [hjoined, split_intercalate hlayout]

theorem parse_split_text_index :
    let ea : Ea := .index 3 (-8) ⟨true, 2, false, 4⟩
    let other : Ea := .regList 0x200F
    ea.Legible ∧ other.Legible ∧
      parse "(-8,a3,a2.w*4)".toList = .ok (.index (.ofInt (-8)) 3 ⟨true, 2, false, 4⟩) ∧
      split "(-8,a3,a2.w*4),d0-d3/a5".toList = ["(-8,a3,a2.w*4)".toList, "d0-d3/a5".toList] := by
  intro ea other
  have h : ea.Legible := ⟨by decide, by decide, by decide⟩
  have hother : other.Legible := show (0x200F : UInt16) ≠ 0 by decide
  obtain ⟨hparse, -, hsplit⟩ := parse_split_text h hother
  exact ⟨h, hother, hparse, hsplit⟩

end Operand

end Assembly

end ColdFire
