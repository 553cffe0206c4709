import ColdFire.Assembly.Statement
import ColdFire.Proofs.Assembly.Splitting

namespace ColdFire

open Text

namespace Assembly

variable {mnemonic : String} {size : Option Size} {texts : List (List Char)} {ops : List Operand}

/-- A word of letters and digits that is no name of a directive. -/
structure IsMnemonic (mnemonic : String) : Prop where
  ne : mnemonic ≠ ""
  plain : mnemonic.toList ⊆ plain
  data : mnemonic ≠ "dc"

namespace Statement

def word (mnemonic : String) (size : Option Size) : List Char :=
  mnemonic.toList ++ size.elim [] fun s => ['.', s.letter]

theorem word_subset (h : IsMnemonic mnemonic) : word mnemonic size ⊆ '.' :: plain := by
  have hletter (s : Size) : s.letter ∈ plain := by cases s <;> decide
  rw [word, List.append_subset]
  refine ⟨List.Subset.trans h.plain (List.subset_cons_self _ _), ?_⟩
  cases size with
  | none => exact List.nil_subset _
  | some s => simpa using .inr (hletter s)

theorem readMnemonic_word (h : IsMnemonic mnemonic) :
    readMnemonic (word mnemonic size) = .ok (mnemonic, size) := by
  have hdot : ∀ c ∈ mnemonic.toList, (c == '.') = false := by
    intro c hc
    rw [beq_eq_false_iff_ne]
    rintro rfl
    exact absurd (h.plain hc) (by decide)
  unfold readMnemonic word
  cases size with
  | none => rw [Option.elim_none, List.append_nil, cutAt?_eq_none hdot, String.ofList_toList]
  | some s =>
    have hcut : cutAt? (· == '.') (mnemonic.toList ++ ['.', s.letter]) =
        some (mnemonic.toList, [s.letter]) :=
      cutAt?_append hdot (beq_self_eq_true '.')
    have hsize : sizeOfSuffix [s.letter] = .ok s := by cases s <;> decide
    rw [Option.elim_some, hcut]
    dsimp only
    rw [hsize, String.ofList_toList]
    rfl

/-- A directive is not read as a mnemonic, or it is read as the one that is none. -/
theorem word_ne (h : IsMnemonic mnemonic) {directive : String}
    (hdirective : ∀ r, readMnemonic directive.toList = .ok r → r.1 = "dc") :
    String.ofList (word mnemonic size) ≠ directive := by
  rintro rfl
  rw [String.toList_ofList] at hdirective
  exact h.data (hdirective _ (readMnemonic_word h))

theorem word_head (h : IsMnemonic mnemonic) (size : Option Size) :
    ∃ c rest, word mnemonic size = c :: rest ∧ c ∈ plain := by
  unfold word
  cases hcs : mnemonic.toList with
  | nil => exact absurd (String.toList_eq_nil_iff.mp hcs) h.ne
  | cons c cs => exact ⟨c, _, rfl, h.plain (hcs ▸ List.mem_cons_self)⟩

theorem isPrefixOf_word (h : IsMnemonic mnemonic) :
    ['.'].isPrefixOf (word mnemonic size) = false := by
  obtain ⟨c, rest, hword, hc⟩ := word_head h size
  rw [hword, List.isPrefixOf, Bool.and_eq_false_iff]
  left
  rw [beq_eq_false_iff_ne]
  rintro rfl
  exact absurd hc (by decide)

theorem ofParts_word (h : IsMnemonic mnemonic) (hlayout : ∀ t ∈ texts, Operand.Layout t)
    (hops : texts.mapM Operand.parse = .ok ops) :
    ofParts (word mnemonic size) ([','].intercalate texts) =
      .ok (.instruction mnemonic size ops) := by
  unfold ofParts
  split
  case h_9 =>
    rw [isPrefixOf_word h, if_neg Bool.false_ne_true, readMnemonic_word h,
      Operand.split_intercalate hlayout, hops]
    rfl
  all_goals
    exact absurd ‹String.ofList _ = _› (word_ne h (by rintro r ⟨⟩ <;> rfl))

end Statement

namespace Line

def instruction (mnemonic : String) (size : Option Size) (texts : List (List Char)) : List Char :=
  Statement.word mnemonic size ++ if texts = [] then [] else ' ' :: [','].intercalate texts

theorem withoutComment_of_none {cs : List Char} (h : ∀ c ∈ cs, c ≠ '\'' ∧ c ≠ ';') :
    withoutComment false cs = cs := by
  induction cs with
  | nil => rfl
  | cons c cs ih =>
    obtain ⟨hc, hcs⟩ := List.forall_mem_cons.mp h
    rw [withoutComment, if_neg (by simpa using hc.1), if_neg (by simpa using hc.2), ih hcs]

theorem isSymbol_eq_false {c : Char} {cs : List Char} (hc : c ∈ cs)
    (hletter : Expression.isLetter c = false) (hdigit : c.isDigit = false) :
    Expression.isSymbol cs = false := by
  cases cs with
  | nil => rfl
  | cons d ds =>
    rw [Expression.isSymbol, Bool.and_eq_false_iff]
    rcases List.mem_cons.mp hc with rfl | hmem
    · exact .inl hletter
    · right
      rw [List.all_eq_false]
      exact ⟨c, hmem, by simp [hletter, hdigit]⟩

section Instruction

variable (h : IsMnemonic mnemonic) (hlayout : ∀ t ∈ texts, Operand.Layout t)

include hlayout in
theorem intercalate_subset_ink : [','].intercalate texts ⊆ ink :=
  intercalate_subset (by decide) fun t ht => (hlayout t ht).subset_ink

include hlayout in
theorem intercalate_head (hne : texts ≠ []) :
    ∃ c rest, [','].intercalate texts = c :: rest ∧ c ≠ ':' := by
  obtain ⟨t, rest, rfl⟩ := List.exists_cons_of_ne_nil hne
  obtain ⟨c, cs, rfl, hc⟩ := (hlayout t List.mem_cons_self).head
  cases rest with
  | nil => exact ⟨c, cs, by simp, hc⟩
  | cons u rest => exact ⟨c, _, by rw [List.intercalate_cons_cons]; rfl, hc⟩

include h hlayout

theorem instruction_subset : instruction mnemonic size texts ⊆ ' ' :: ink := by
  have hword : Statement.word mnemonic size ⊆ ' ' :: ink :=
    List.Subset.trans (Statement.word_subset h) (by decide)
  unfold instruction
  split
  · rwa [List.append_nil]
  · rw [List.append_subset, List.cons_subset]
    exact ⟨hword, List.mem_cons_self,
      List.Subset.trans (intercalate_subset_ink hlayout) (List.subset_cons_self _ _)⟩

omit hlayout in
theorem blank_of_word {c : Char} (hc : c ∈ Statement.word mnemonic size) : isBlank c = false := by
  have hblank : ∀ c ∈ '.' :: plain, isBlank c = false := List.all_iff_forall_prop.mp (by decide)
  exact hblank c (Statement.word_subset h hc)

omit hlayout in
theorem colon_of_word {c : Char} (hc : c ∈ Statement.word mnemonic size) : (c == ':') = false := by
  have hcolon : ∀ c ∈ '.' :: plain, (c == ':') = false := List.all_iff_forall_prop.mp (by decide)
  exact hcolon c (Statement.word_subset h hc)

omit hlayout in
theorem trim_word {x : List Char} (hx : x ≠ []) (hink : x ⊆ ink) :
    trim (Statement.word mnemonic size ++ ' ' :: x) = Statement.word mnemonic size ++ ' ' :: x := by
  obtain ⟨c, rest, hword, hc⟩ := Statement.word_head h size
  apply trim_of_ends
  · intro d hd
    rw [hword] at hd
    cases hd
    exact isBlank_of_ink c (plain_subset_ink hc)
  · intro d hd
    obtain ⟨y, ys, rfl⟩ := List.exists_cons_of_ne_nil hx
    have hlast : (y :: ys).getLast? = some d := by simpa using hd
    exact isBlank_of_ink d (hink (List.mem_of_getLast? hlast))

theorem trim_instruction :
    trim (instruction mnemonic size texts) = instruction mnemonic size texts := by
  unfold instruction
  split
  · rw [List.append_nil]
    exact trim_of_all fun c hc => blank_of_word h hc
  · rename_i hne
    obtain ⟨c, rest, hjoined, -⟩ := intercalate_head hlayout hne
    exact trim_word h (hjoined ▸ List.cons_ne_nil _ _) (intercalate_subset_ink hlayout)

/-- What stands in front of a colon is no label: it has a blank in it. -/
theorem splitLabel_instruction :
    splitLabel (instruction mnemonic size texts) = (none, instruction mnemonic size texts) := by
  have hword : ∀ c ∈ Statement.word mnemonic size, (c == ':') = false := fun c => colon_of_word h
  unfold instruction
  split
  · rw [List.append_nil, splitLabel, cutAt?_eq_none hword]
  · rename_i hne
    obtain ⟨c, rest, hjoined, hc⟩ := intercalate_head hlayout hne
    have hink := intercalate_subset_ink hlayout
    have hcut : cutAt? (· == ':') (Statement.word mnemonic size ++ ' ' :: [','].intercalate texts) =
        (cutAt? (· == ':') rest).map fun r =>
          (Statement.word mnemonic size ++ ' ' :: c :: r.1, r.2) := by
      rw [cutAt?_append_left hword, hjoined, cutAt?, if_neg (by decide), cutAt?,
        if_neg (by simpa using hc), Option.map_map, Option.map_map]
      rfl
    unfold splitLabel
    rw [hcut]
    cases hrest : cutAt? (· == ':') rest with
    | none => rfl
    | some r =>
      obtain ⟨before, after⟩ := r
      obtain ⟨-, d, -, hsplit⟩ := of_cutAt? hrest
      have hsubset : c :: before ⊆ ink := by
        rw [hjoined, hsplit] at hink
        exact fun b hb => hink (by
          rw [← List.cons_append]
          exact List.mem_append_left _ hb)
      have hblank : ' ' ∈ Statement.word mnemonic size ++ ' ' :: c :: before := by simp
      rw [Option.map_some]
      dsimp only
      rw [trim_word h (List.cons_ne_nil _ _) hsubset,
        isSymbol_eq_false hblank (by decide) (by decide), if_neg Bool.false_ne_true]

theorem statement_instruction (hops : texts.mapM Operand.parse = .ok ops) :
    Statement.parse (instruction mnemonic size texts) =
      .ok (some (.instruction mnemonic size ops)) := by
  obtain ⟨c, rest, hword, -⟩ := Statement.word_head h size
  have hlower : lower (Statement.word mnemonic size) = Statement.word mnemonic size :=
    lower_of_ink (List.Subset.trans (Statement.word_subset h) (by decide))
  have htrim : trim ([','].intercalate texts) = [','].intercalate texts :=
    trim_of_ink (intercalate_subset_ink hlayout)
  have hcut : (cutAt? isBlank (instruction mnemonic size texts)).getD
      (instruction mnemonic size texts, []) =
        (Statement.word mnemonic size, [','].intercalate texts) := by
    unfold instruction
    split
    · rename_i hnil
      rw [List.append_nil, cutAt?_eq_none fun c hc => blank_of_word h hc, hnil]
      rfl
    · rw [cutAt?_append (fun c hc => blank_of_word h hc) (by decide)]
      rfl
  have hempty : (instruction mnemonic size texts).isEmpty = false := by
    rw [instruction, hword]
    rfl
  unfold Statement.parse
  rw [hempty, if_neg Bool.false_ne_true, hcut]
  dsimp only
  rw [hlower, htrim, Statement.ofParts_word h hlayout hops]
  rfl

/-- A line of a mnemonic and operands is an instruction without a label. -/
theorem parse_instruction (hops : texts.mapM Operand.parse = .ok ops) (number : Nat) :
    parse number (instruction mnemonic size texts) =
      .ok ⟨number, none, some (.instruction mnemonic size ops)⟩ := by
  have hmarks : ∀ c ∈ ' ' :: ink, c ≠ '\'' ∧ c ≠ ';' := List.all_iff_forall_prop.mp (by decide)
  have hcomment : withoutComment false (instruction mnemonic size texts) = _ :=
    withoutComment_of_none fun c hc => hmarks c (instruction_subset h hlayout hc)
  unfold parse
  rw [hcomment, trim_instruction h hlayout, splitLabel_instruction h hlayout]
  dsimp only
  rw [statement_instruction h hlayout hops]
  rfl

end Instruction

/-- A line that gives the address to go on at. -/
def origin (digits : List Char) : List Char := ['.', 'o', 'r', 'g'] ++ ' ' :: digits

section Origin

variable {digits : List Char} {v : Int}

theorem origin_subset (h : digits ⊆ innerInk) : origin digits ⊆ ' ' :: innerInk := by
  rw [origin, List.append_subset]
  exact ⟨by decide, List.cons_subset_cons _ h⟩

theorem isBlank_of_numeral (h : Numeral digits v) : ∀ c ∈ digits, isBlank c = false := fun c hc =>
  isBlank_of_ink c (innerInk_subset_ink (Operand.subset_innerInk_of_numeral h hc))

theorem trim_origin (h : Numeral digits v) : trim (origin digits) = origin digits := by
  obtain ⟨c, rest, hdigits, -⟩ := h.head
  apply trim_of_ends
  · rintro _ ⟨⟩
    rfl
  · intro d hd
    have hlast : digits.getLast? = some d := by
      subst hdigits
      simpa [origin] using hd
    exact isBlank_of_numeral h d (List.mem_of_getLast? hlast)

theorem statement_origin (h : Numeral digits v) :
    Statement.parse (origin digits) = .ok (some (.org (.ofInt v))) := by
  have hcut : cutAt? isBlank (origin digits) = some (['.', 'o', 'r', 'g'], digits) :=
    cutAt?_append (List.all_iff_forall_prop.mp (by decide)) (by decide)
  unfold Statement.parse
  rw [hcut]
  dsimp only [Option.getD_some]
  rw [trim_of_all (isBlank_of_numeral h)]
  change (((Expression.parse digits).map Statement.org).map some) = _
  rw [h.parse]
  rfl

theorem parse_origin (h : Numeral digits v) (number : Nat) :
    parse number (origin digits) = .ok ⟨number, none, some (.org (.ofInt v))⟩ := by
  have hinner := origin_subset (Operand.subset_innerInk_of_numeral h)
  have hmarks : ∀ c ∈ ' ' :: innerInk, c ≠ '\'' ∧ c ≠ ';' ∧ (c == ':') = false :=
    List.all_iff_forall_prop.mp (by decide)
  have hcomment : withoutComment false (origin digits) = origin digits :=
    withoutComment_of_none fun c hc => ⟨(hmarks c (hinner hc)).1, (hmarks c (hinner hc)).2.1⟩
  unfold parse splitLabel
  rw [hcomment, trim_origin h, cutAt?_eq_none fun c hc => (hmarks c (hinner hc)).2.2]
  dsimp only
  rw [statement_origin h]
  rfl

end Origin

end Line

end Assembly

end ColdFire
