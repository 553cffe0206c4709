import ColdFire.Assembly.Expression
import ColdFire.Proofs.Text.Digits
import ColdFire.Proofs.Word.Number

namespace ColdFire

open Text

namespace Assembly.Expression

variable {mark : String} {radix : Nat} {c : Char} {cs digits held rest : List Char}
  {negated quoted : Bool}

section Characters

def isWordChar (c : Char) : Bool := isLetter c || c.isDigit

theorem isWordChar_of_isAlphanum (h : c.isAlphanum = true) : isWordChar c = true := by
  rw [Char.isAlphanum, Bool.or_eq_true] at h
  rcases h with halpha | hdigit
  · rw [isWordChar, isLetter, halpha, Bool.true_or, Bool.true_or, Bool.true_or]
  · rw [isWordChar, hdigit, Bool.or_true]

theorem of_isWordChar {P : Char → Prop}
    (hall : ∀ n < 123, isWordChar (Char.ofNat n) = true → P (Char.ofNat n))
    (h : isWordChar c = true) : P c := by
  have hlt : c.toNat < 123 := by
    simp only [isWordChar, isLetter, Bool.or_eq_true, beq_iff_eq] at h
    rcases h with ((halpha | rfl) | rfl) | hdigit
    · exact toNat_lt_of_isAlphanum (by rw [Char.isAlphanum, halpha, Bool.true_or])
    · decide
    · decide
    · exact toNat_lt_of_isAlphanum (by rw [Char.isAlphanum, hdigit, Bool.or_true])
  rw [← Char.ofNat_toNat c] at h ⊢
  exact hall _ hlt h

/-- A character that goes with the term so far, whatever that is. -/
def IsInner (c : Char) : Prop :=
  isBlank c = false ∧ (c == '\'') = false ∧ (c == '+' || c == '-') = false

instance : Decidable (IsInner c) := inferInstanceAs (Decidable (_ ∧ _))

theorem isInner_of_isWordChar (h : isWordChar c = true) : IsInner c :=
  of_isWordChar (by decide) h

theorem isInner_of_isDigit (h : IsDigit radix c) : IsInner c :=
  isInner_of_isWordChar (isWordChar_of_isAlphanum h.1)

theorem isDigit_of_isDigit_ten (h : IsDigit 10 c) : c.isDigit = true :=
  of_isWordChar (P := fun c => IsDigit 10 c → c.isDigit = true) (by decide)
    (isWordChar_of_isAlphanum h.1) h

theorem isWordChar_of_isSymbol (h : isSymbol cs = true) : ∀ c ∈ cs, isWordChar c = true := by
  cases cs with
  | nil => exact List.forall_mem_nil _
  | cons c cs =>
    rw [isSymbol, Bool.and_eq_true, List.all_eq_true] at h
    refine List.forall_mem_cons.mpr ⟨?_, h.2⟩
    rw [isWordChar, h.1, Bool.true_or]

theorem trim_of_isInner (h : ∀ c ∈ cs, IsInner c) : trim cs = cs :=
  trim_of_all fun c hc => (h c hc).1

theorem quote_not_mem (h : ∀ c ∈ cs, IsInner c) : '\'' ∉ cs := fun hc =>
  absurd (h _ hc).2.1 (by decide)

end Characters

section Numbers

/-- What may stand in front of the digits of a number, with the radix that it tells. -/
def marks : List (String × Nat) :=
  [("", 10), ("$", 16), ("0x", 16), ("0X", 16), ("%", 2), ("0b", 2), ("0B", 2)]

theorem isInner_of_mark (h : (mark, radix) ∈ marks) : ∀ c ∈ mark.toList, IsInner c := by
  have hall : ∀ m ∈ marks, m.1.toList.all (IsInner ·) = true := by decide
  exact List.all_iff_forall_prop.mp (hall _ h)

theorem isInner_of_marked (hmark : (mark, radix) ∈ marks) (h : ∀ c ∈ digits, IsDigit radix c) :
    ∀ c ∈ mark.toList ++ digits, IsInner c :=
  List.forall_mem_append.mpr ⟨isInner_of_mark hmark, fun c hc => isInner_of_isDigit (h c hc)⟩

theorem afterAny?_eq_none {others : List String} (h : ∀ other ∈ others, ¬ other.toList <+: cs) :
    afterAny? others cs = none := by
  rw [afterAny?, List.findSome?_eq_none_iff]
  intro other hother
  cases hafter : afterMark? other.toList cs with
  | none => rfl
  | some after => exact absurd ⟨after, (afterMark?_iff.mp hafter).symm⟩ (h other hother)

theorem inQuotes?_eq_none (h : '\'' ∉ cs) : inQuotes? cs = none := by
  rw [inQuotes?, afterMark?_eq_none List.mem_cons_self h, Option.bind_none]

theorem number?_hexMarked (htrim : trim cs = cs)
    (h : afterAny? ["$", "0x", "0X"] cs = some digits) : number? cs = readInt64? 16 digits := by
  unfold number?
  rw [htrim]
  dsimp only
  rw [h]

theorem number?_binaryMarked (htrim : trim cs = cs) (hhex : afterAny? ["$", "0x", "0X"] cs = none)
    (h : afterAny? ["%", "0b", "0B"] cs = some digits) : number? cs = readInt64? 2 digits := by
  unfold number?
  rw [htrim]
  dsimp only
  rw [hhex, h]

theorem number?_unmarked (htrim : trim cs = cs) (hquote : '\'' ∉ cs)
    (hhex : afterAny? ["$", "0x", "0X"] cs = none)
    (hbinary : afterAny? ["%", "0b", "0B"] cs = none) :
    number? cs = if cs.head?.any Char.isDigit then readInt64? 10 cs else none := by
  unfold number?
  rw [htrim]
  dsimp only
  rw [hhex, hbinary, inQuotes?_eq_none hquote]
  cases cs <;> rfl

/-- A marked number does not start with marks that are neither its own nor digits of its radix. -/
theorem afterAny?_marked_eq_none {others : List String} (hdigits : ∀ c ∈ digits, IsDigit radix c)
    (h : ∀ other ∈ others, other.toList.any (fun c => ¬ IsDigit radix c ∧ c ∉ mark.toList) = true) :
    afterAny? others (mark.toList ++ digits) = none := by
  refine afterAny?_eq_none fun other hother hstart => ?_
  obtain ⟨c, hc, hother⟩ := List.any_eq_true.mp (h other hother)
  obtain ⟨hdigit, hmark⟩ := of_decide_eq_true hother
  rcases List.mem_append.mp (hstart.subset hc) with hmem | hmem
  · exact hmark hmem
  · exact hdigit (hdigits c hmem)

theorem number?_marked (hmark : (mark, radix) ∈ marks) (hne : digits ≠ [])
    (hdigits : ∀ c ∈ digits, IsDigit radix c) :
    number? (mark.toList ++ digits) = readInt64? radix digits := by
  have hinner := isInner_of_marked hmark hdigits
  have htrim := trim_of_isInner hinner
  have hnone {others : List String}
      (h : ∀ other ∈ others,
        other.toList.any (fun c => ¬ IsDigit radix c ∧ c ∉ mark.toList) = true) :
      afterAny? others (mark.toList ++ digits) = none :=
    afterAny?_marked_eq_none hdigits h
  simp only [marks, List.mem_cons, Prod.mk.injEq, List.not_mem_nil, or_false] at hmark
  obtain ⟨rfl, rfl⟩ | ⟨rfl, rfl⟩ | ⟨rfl, rfl⟩ | ⟨rfl, rfl⟩ | ⟨rfl, rfl⟩ | ⟨rfl, rfl⟩ | ⟨rfl, rfl⟩ :=
    hmark
  · obtain ⟨c, cs, rfl⟩ := List.exists_cons_of_ne_nil hne
    rw [number?_unmarked htrim (quote_not_mem hinner) (hnone (by decide)) (hnone (by decide))]
    exact if_pos (isDigit_of_isDigit_ten (hdigits c List.mem_cons_self))
  · exact number?_hexMarked htrim rfl
  · exact number?_hexMarked htrim rfl
  · exact number?_hexMarked htrim rfl
  · exact number?_binaryMarked htrim (hnone (by decide)) rfl
  · exact number?_binaryMarked htrim (hnone (by decide)) rfl
  · exact number?_binaryMarked htrim (hnone (by decide)) rfl

theorem number?_symbol (h : isSymbol cs = true) : number? cs = none := by
  have hinner : ∀ c ∈ cs, IsInner c := fun c hc =>
    isInner_of_isWordChar (isWordChar_of_isSymbol h c hc)
  cases cs with
  | nil => cases h
  | cons c cs =>
    have hletter : isLetter c = true := (Bool.and_eq_true_iff.mp h).1
    -- no mark starts with a letter
    have hnone {others : List String}
        (hothers : ∀ other ∈ others, other.toList.head?.any (!isLetter ·) = true) :
        afterAny? others (c :: cs) = none := by
      refine afterAny?_eq_none fun other hother hstart => ?_
      have hhead := hothers other hother
      cases hchars : other.toList with
      | nil => rw [hchars] at hhead; cases hhead
      | cons d ds =>
        rw [hchars] at hhead hstart
        rw [(List.cons_prefix_cons.mp hstart).1, List.head?_cons, Option.any_some, hletter] at hhead
        cases hhead
    have hdigit : c.isDigit = false :=
      of_isWordChar (P := fun c => isLetter c = true → c.isDigit = false) (by decide)
        (isWordChar_of_isSymbol h c List.mem_cons_self) hletter
    rw [number?_unmarked (trim_of_isInner hinner) (quote_not_mem hinner) (hnone (by decide))
      (hnone (by decide)), List.head?_cons, Option.any_some, hdigit, if_neg Bool.false_ne_true]

theorem trim_quoted : trim ['\'', c, '\''] = ['\'', c, '\''] :=
  trim_of_ends (by rintro _ ⟨⟩; rfl) (by rintro _ ⟨⟩; rfl)

theorem number?_quoted (hascii : c.toNat < 0x80) :
    number? ['\'', c, '\''] = some (c.toNat : Int) := by
  have hquotes : inQuotes? ['\'', c, '\''] = some [c] := rfl
  have hhex : afterAny? ["$", "0x", "0X"] ['\'', c, '\''] = none := rfl
  have hbinary : afterAny? ["%", "0b", "0B"] ['\'', c, '\''] = none := rfl
  unfold number?
  rw [trim_quoted]
  dsimp only
  rw [hhex, hbinary, hquotes]
  exact if_pos hascii

end Numbers

section Terms

/-- Whatever is neither a sign nor an apostrophe goes with the term so far. -/
theorem termsFrom_append (h : ∀ c ∈ cs, (c == '\'') = false ∧ (c == '+' || c == '-') = false) :
    termsFrom negated quoted held (cs ++ rest) =
      termsFrom negated quoted (cs.reverse ++ held) rest := by
  induction cs generalizing held with
  | nil => rfl
  | cons c cs ih =>
    obtain ⟨⟨hquote, hsign⟩, hcs⟩ := List.forall_mem_cons.mp h
    rw [List.cons_append, termsFrom, hquote, hsign, if_neg Bool.false_ne_true, Bool.false_and,
      if_neg Bool.false_ne_true, ih hcs, List.reverse_cons, List.append_assoc,
      List.singleton_append]

theorem termsFrom_quoted (hquote : c ≠ '\'') :
    termsFrom negated false held (['\'', c, '\''] ++ rest) =
      termsFrom negated false (['\'', c, '\''].reverse ++ held) rest := by
  simp [termsFrom, hquote]

end Terms

theorem toInt_ofInt_of_fits {v : Int} (h : FitsSigned 64 v) : (Int64.ofInt v).toInt = v :=
  Int64.toInt_ofInt_of_le h.1 h.2

/-- A term as it may be written, and what it stands for. -/
inductive Written : List Char → Expression → Prop where
  | number {mark : String} {radix : Nat} {digits : List Char} (hmark : (mark, radix) ∈ marks)
      (hne : digits ≠ []) (hdigits : ∀ c ∈ digits, IsDigit radix c)
      (hfits : FitsSigned 64 (numeral radix digits)) :
      Written (mark.toList ++ digits) (.ofInt (numeral radix digits))
  | character {c : Char} (hascii : c.toNat < 0x80) (hquote : c ≠ '\'') :
      Written ['\'', c, '\''] (.ofInt c.toNat)
  | symbol {name : List Char} (hname : isSymbol name = true) :
      Written name ⟨some (String.ofList name), 0⟩

namespace Written

variable {text : List Char} {value : Expression}

theorem isInner (h : Written text value) :
    (∀ c ∈ text, IsInner c) ∨ ∃ c, c ≠ '\'' ∧ text = ['\'', c, '\''] := by
  cases h with
  | number hmark _ hdigits _ => exact .inl (isInner_of_marked hmark hdigits)
  | character _ hquote => exact .inr ⟨_, hquote, rfl⟩
  | symbol hname =>
    exact .inl fun c hc => isInner_of_isWordChar (isWordChar_of_isSymbol hname c hc)

theorem ne_nil (h : Written text value) : text ≠ [] := by
  cases h with
  | number _ hne _ _ => exact List.append_ne_nil_of_right_ne_nil _ hne
  | character _ _ => exact List.cons_ne_nil _ _
  | symbol hname => rintro rfl; cases hname

theorem trim_eq (h : Written text value) : trim text = text := by
  obtain hinner | ⟨c, -, rfl⟩ := h.isInner
  · exact trim_of_isInner hinner
  · exact trim_quoted

theorem termsFrom_append (h : Written text value) :
    termsFrom negated false held (text ++ rest) =
      termsFrom negated false (text.reverse ++ held) rest := by
  obtain hinner | ⟨c, hquote, rfl⟩ := h.isInner
  · exact Expression.termsFrom_append fun c hc => (hinner c hc).2
  · exact termsFrom_quoted hquote

/-- What one term does to the sum of those in front of it. -/
theorem addTerm_eq (h : Written text value) {whole : List Char} {e : Expression} :
    addTerm whole e ⟨negated, text⟩ = match value.symbol with
      | none =>
        .ok { e with addend := if negated then e.addend - value.addend else e.addend + value.addend }
      | some name =>
        if negated then .error (.negatedSymbol text)
        else if e.symbol.isSome then .error (.twoSymbols whole)
        else .ok { e with symbol := some name } := by
  have hempty : ¬ text.isEmpty = true := by simpa using h.ne_nil
  rw [addTerm, if_neg hempty]
  cases h with
  | number hmark hne hdigits hfits =>
    have hread := readInt64?_of_digits? (digits?_eq hne hdigits) (by have := hfits.2; omega)
    dsimp only
    rw [number?_marked hmark hne hdigits, hread]
    rfl
  | character hascii _ =>
    dsimp only
    rw [number?_quoted hascii]
    rfl
  | symbol hname =>
    dsimp only
    rw [number?_symbol hname, if_pos hname]

end Written

end Assembly.Expression

end ColdFire
