import ColdFire.Proofs.Assembly.Spelling
import Mathlib.Data.List.Infix

namespace ColdFire

open Text

namespace Assembly.Expression

variable {c : Char} {cs bs held rest : List Char}

section Runs

/-- Signs and blanks. -/
def IsRun (cs : List Char) : Prop := ∀ c ∈ cs, c = '+' ∨ c = '-' ∨ isBlank c = true

instance : Decidable (IsRun cs) := List.decidableBAll _ cs

def signed (cs : List Char) : Bool := cs.any fun c => c == '+' || c == '-'

/-- Two minus signs make a plus sign. -/
def negative (cs : List Char) : Bool := cs.count '-' % 2 == 1

theorem negative_cons : negative (c :: cs) = ((c == '-') ^^ negative cs) := by
  unfold negative
  rw [List.count_cons]
  cases c == '-' with
  | false => rw [if_neg Bool.false_ne_true, Nat.add_zero, Bool.false_xor]
  | true => rcases Nat.mod_two_eq_zero_or_one (cs.count '-') with h | h <;> simp [Nat.add_mod, h]

theorem of_isBlank (h : isBlank c = true) :
    (c == '\'') = false ∧ (c == '+' || c == '-') = false := by
  rw [Bool.or_eq_false_iff, beq_eq_false_iff_ne, beq_eq_false_iff_ne, beq_eq_false_iff_ne]
  refine ⟨?_, ?_, ?_⟩ <;> rintro rfl <;> cases h

theorem IsRun.isBlank (h : IsRun cs) (hsigned : signed cs = false) : ∀ c ∈ cs, isBlank c = true := by
  intro c hc
  have hnone := List.any_eq_false.mp hsigned c hc
  rcases h c hc with rfl | rfl | hblank
  · exact absurd rfl hnone
  · exact absurd rfl hnone
  · exact hblank

end Runs

section Scan

variable {text : List Char} {negated quoted : Bool}

theorem termsFrom_blanks (h : ∀ b ∈ bs, isBlank b = true) :
    termsFrom negated quoted (held ++ bs) cs = termsFrom negated quoted held cs := by
  have htrim (held : List Char) : trim (held ++ bs).reverse = trim held.reverse := by
    rw [List.reverse_append, trim_append_left fun b hb => h b (List.mem_reverse.mp hb)]
  induction cs generalizing negated quoted held with
  | nil => rw [termsFrom, htrim, termsFrom]
  | cons c cs ih =>
    simp only [termsFrom, htrim, ← List.cons_append, ih]

theorem termsFrom_append_blanks (h : ∀ b ∈ bs, isBlank b = true) :
    termsFrom negated quoted held (cs ++ bs) = termsFrom negated quoted held cs := by
  induction cs generalizing negated quoted held with
  | nil =>
    have hscan : termsFrom negated quoted held (bs ++ []) =
        termsFrom negated quoted (bs.reverse ++ held) [] :=
      termsFrom_append fun b hb => of_isBlank (h b hb)
    rw [List.append_nil] at hscan
    rw [List.nil_append, hscan, termsFrom, List.reverse_append, List.reverse_reverse,
      trim_append h, termsFrom]
  | cons c cs ih => simp only [List.cons_append, termsFrom, ih]

theorem terms_trim : terms (trim cs) = terms cs := by
  obtain ⟨front, back, hcs, hfront, hback⟩ := exists_trim cs
  calc terms (trim cs) = termsFrom false false [] (trim cs ++ back) :=
        (termsFrom_append_blanks hback).symm
    _ = termsFrom false false ([] ++ front.reverse) (trim cs ++ back) :=
        (termsFrom_blanks fun c hc => hfront c (List.mem_reverse.mp hc)).symm
    _ = termsFrom false false [] (front ++ (trim cs ++ back)) := by
        rw [termsFrom_append fun c hc => of_isBlank (hfront c hc), List.append_nil, List.nil_append]
    _ = terms cs := by rw [← List.append_assoc, ← hcs, terms]

/-- The signs in front of a term make one sign. -/
theorem termsFrom_run (h : IsRun cs) :
    termsFrom negated false [] (cs ++ rest) = termsFrom (negated ^^ negative cs) false [] rest := by
  induction cs generalizing negated with
  | nil => rw [List.nil_append, show negative [] = false from rfl, Bool.xor_false]
  | cons c cs ih =>
    obtain ⟨hc, hcs⟩ := List.forall_mem_cons.mp h
    rw [List.cons_append, negative_cons, ← Bool.xor_assoc, ← ih hcs]
    rcases hc with rfl | rfl | hblank
    · rfl
    · rfl
    · -- a blank is held, but no term ends with it at the next sign
      have hkeep : termsFrom negated false ([] ++ [c]) (cs ++ rest) =
          termsFrom negated false [] (cs ++ rest) :=
        termsFrom_blanks (List.forall_mem_singleton.mpr hblank)
      obtain ⟨hquote, hsign⟩ := of_isBlank hblank
      have hminus : (c == '-') = false := (Bool.or_eq_false_iff.mp hsign).2
      rw [hminus, Bool.xor_false, ← hkeep]
      simp [termsFrom, hquote, hsign]

/-- A sign behind a term ends it; this and the further signs make the sign of the next. -/
theorem termsFrom_break (h : IsRun cs) (hsigned : signed cs = true)
    (htrim : trim held.reverse = text) (hne : text ≠ []) :
    termsFrom negated false held (cs ++ rest) =
      ⟨negated, text⟩ :: termsFrom (negative cs) false [] rest := by
  induction cs generalizing held with
  | nil => cases hsigned
  | cons c cs ih =>
    obtain ⟨hc, hcs⟩ := List.forall_mem_cons.mp h
    cases hsign : c == '+' || c == '-' with
    | true =>
      have hquote : (c == '\'') = false := by
        rw [Bool.or_eq_true, beq_iff_eq, beq_iff_eq] at hsign
        rcases hsign with rfl | rfl <;> rfl
      rw [List.cons_append, termsFrom, hquote, hsign, negative_cons, ← termsFrom_run hcs, htrim]
      simp [hne]
    | false =>
      -- a blank in front of the first sign goes with the term and is trimmed off
      have hblank : isBlank c = true := by
        rcases hc with rfl | rfl | hblank
        · cases hsign
        · cases hsign
        · exact hblank
      have hkeep : trim (c :: held).reverse = text := by
        rw [List.reverse_cons, trim_append (List.forall_mem_singleton.mpr hblank), htrim]
      rw [signed, List.any_cons, hsign, Bool.false_or] at hsigned
      have hminus : (c == '-') = false := (Bool.or_eq_false_iff.mp hsign).2
      rw [List.cons_append, termsFrom, (of_isBlank hblank).1, hsign, negative_cons, hminus,
        Bool.false_xor, ← ih hcs hsigned hkeep]
      rfl

end Scan

/-- A term with the signs and blanks in front of it. -/
structure Summand where
  signs : List Char
  text : List Char
  value : Expression
  isRun : IsRun signs
  isTerm : Written text value

namespace Summand

def negated (x : Summand) : Bool := negative x.signs

def full (x : Summand) : List Char := x.signs ++ x.text

def term (x : Summand) : Term := ⟨x.negated, x.text⟩

/-- The number of a summand with its sign. It is zero for a symbol. -/
def number (x : Summand) : Int := if x.negated then -x.value.offset else x.value.offset

theorem ofInt_number (x : Summand) :
    Int64.ofInt x.number = if x.negated then -x.value.addend else x.value.addend := by
  unfold number offset
  split
  · rw [Int64.ofInt_neg, Int64.ofInt_toInt]
  · rw [Int64.ofInt_toInt]

theorem trim_held (x : Summand) : trim (x.text.reverse ++ []).reverse = x.text := by
  rw [List.append_nil, List.reverse_reverse, x.isTerm.trim_eq]

end Summand

variable {x : Summand} {xs : List Summand} {back : List Char} {e e' : Expression}

def total (xs : List Summand) : Int := (xs.map Summand.number).sum

def symbols (xs : List Summand) : List String := xs.filterMap (·.value.symbol)

section Terms

variable {text : List Char}

def dangling (back : List Char) : List Term :=
  if signed back then [⟨negative back, []⟩] else []

theorem termsFrom_summands {negated : Bool} (hback : IsRun back)
    (hjoined : ∀ x ∈ xs, signed x.signs = true) (htrim : trim held.reverse = text)
    (hne : text ≠ []) :
    termsFrom negated false held (xs.flatMap Summand.full ++ back) =
      ⟨negated, text⟩ :: (xs.map Summand.term ++ dangling back) := by
  induction xs generalizing negated held text with
  | nil =>
    rw [List.flatMap_nil, List.nil_append, List.map_nil, List.nil_append, dangling]
    split
    · rename_i hsigned
      have hbreak : termsFrom negated false held (back ++ []) =
          ⟨negated, text⟩ :: termsFrom (negative back) false [] [] :=
        termsFrom_break hback hsigned htrim hne
      rwa [List.append_nil] at hbreak
    · rename_i hsigned
      have hblank := hback.isBlank (Bool.eq_false_iff.mpr hsigned)
      have hend : termsFrom negated false held ([] ++ back) = termsFrom negated false held [] :=
        termsFrom_append_blanks hblank
      rwa [List.nil_append, termsFrom, htrim] at hend
  | cons x xs ih =>
    obtain ⟨hx, hxs⟩ := List.forall_mem_cons.mp hjoined
    rw [List.flatMap_cons, Summand.full, List.append_assoc, List.append_assoc,
      termsFrom_break x.isRun hx htrim hne, x.isTerm.termsFrom_append,
      ih hxs x.trim_held x.isTerm.ne_nil]
    rfl

theorem terms_run (h : IsRun back) : terms back = [⟨negative back, []⟩] := by
  have hrun : termsFrom false false [] (back ++ []) =
      termsFrom (false ^^ negative back) false [] [] := termsFrom_run h
  rw [List.append_nil, Bool.false_xor] at hrun
  exact hrun

/-- The terms of a sum are those that it was written from. -/
theorem terms_summands (hback : IsRun back) (hjoined : ∀ y ∈ xs, signed y.signs = true) :
    terms ((x :: xs).flatMap Summand.full ++ back) =
      (x :: xs).map Summand.term ++ dangling back := by
  rw [terms, List.flatMap_cons, Summand.full, List.append_assoc, List.append_assoc,
    termsFrom_run x.isRun, x.isTerm.termsFrom_append,
    termsFrom_summands hback hjoined x.trim_held x.isTerm.ne_nil, Bool.false_xor]
  rfl

end Terms

section Fold

theorem Written.addend_eq_zero {text : List Char} {value : Expression} (h : Written text value)
    (hsymbol : value.symbol.isSome = true) : value.addend = 0 := by
  cases h with
  | number _ _ _ _ => cases hsymbol
  | character _ _ => cases hsymbol
  | symbol _ => rfl

theorem symbols_cons : symbols (x :: xs) = x.value.symbol.toList ++ symbols xs := by
  rw [symbols, List.filterMap_cons]
  cases x.value.symbol <;> rfl

theorem total_cons : total (x :: xs) = x.number + total xs := by
  rw [total, List.map_cons, List.sum_cons, total]

/-- Terms add up if no symbol is subtracted and no second one is added, and only then. -/
theorem foldlM_addTerm {whole : List Char} :
    (xs.map Summand.term).foldlM (addTerm whole) e = .ok e' ↔
      (∀ x ∈ xs, x.value.symbol.isSome = true → x.negated = false) ∧
        (e.symbol.toList ++ symbols xs).length ≤ 1 ∧
        e' = ⟨(e.symbol.toList ++ symbols xs).head?, e.addend + .ofInt (total xs)⟩ := by
  induction xs generalizing e with
  | nil =>
    have hlength : e.symbol.toList.length ≤ 1 := by cases e.symbol <;> simp
    have hsum : Expression.mk (e.symbol.toList ++ symbols []).head?
        (e.addend + .ofInt (total [])) = e := by
      rw [symbols, List.filterMap_nil, List.append_nil, Option.head?_toList]
      exact congrArg _ (Int64.add_zero _)
    rw [hsum, symbols, List.filterMap_nil, List.append_nil, List.map_nil, List.foldlM_nil]
    exact ⟨fun h => ⟨List.forall_mem_nil _, hlength, (Except.ok.inj h).symm⟩,
      fun h => congrArg Except.ok h.2.2.symm⟩
  | cons x xs ih =>
    rw [List.map_cons, List.foldlM_cons, Summand.term, x.isTerm.addTerm_eq, List.forall_mem_cons,
      symbols_cons, total_cons, Int64.ofInt_add, ← Int64.add_assoc, x.ofInt_number]
    cases hsymbol : x.value.symbol with
    | none =>
      change (xs.map Summand.term).foldlM (addTerm whole) ⟨e.symbol, _⟩ = .ok e' ↔ _
      rw [ih]
      cases x.negated <;> simp [Int64.sub_eq_add_neg]
    | some name =>
      -- the scan of the terms stops at the first symbol that is subtracted or is a second one
      have hzero : x.value.addend = 0 :=
        x.isTerm.addend_eq_zero (by rw [hsymbol, Option.isSome_some])
      cases hnegated : x.negated with
      | true =>
        constructor
        · rintro ⟨⟩
        · intro h
          cases h.1.1 rfl
      | false =>
        cases he : e.symbol with
        | some other =>
          constructor
          · rintro ⟨⟩
          · intro h
            have htwo := h.2.1
            simp at htwo
        | none =>
          change (xs.map Summand.term).foldlM (addTerm whole) ⟨some name, e.addend⟩ = .ok e' ↔ _
          rw [ih, hzero]
          simp

theorem foldlM_addTerm_zero {whole : List Char} :
    (xs.map Summand.term).foldlM (addTerm whole) (ofInt 0) = .ok e ↔
      (∀ x ∈ xs, x.value.symbol.isSome = true → x.negated = false) ∧
        (symbols xs).length ≤ 1 ∧ e = ⟨(symbols xs).head?, .ofInt (total xs)⟩ := by
  have haddend : (ofInt 0).addend + .ofInt (total xs) = .ofInt (total xs) := Int64.zero_add _
  rw [foldlM_addTerm, haddend]
  rfl

theorem foldlM_dangling {whole : List Char} (hclosed : signed back = true) :
    (xs.map Summand.term ++ dangling back).foldlM (addTerm whole) e ≠ .ok e' := by
  rw [List.foldlM_append, dangling, if_pos hclosed]
  cases (xs.map Summand.term).foldlM (addTerm whole) e with
  | error err => rintro ⟨⟩
  | ok sum => rintro ⟨⟩

/-- Trimming the text first makes no difference to its terms, and a blank text has an empty term. -/
theorem parse_eq_ok_iff :
    parse cs = .ok e ↔ (terms cs).foldlM (addTerm (trim cs)) (ofInt 0) = .ok e := by
  rw [parse, terms_trim]
  cases htrim : trim cs with
  | nil =>
    have hterms : terms cs = [⟨false, []⟩] := by rw [← terms_trim, htrim]; rfl
    rw [hterms]
    exact iff_of_false (by rintro ⟨⟩) (by rintro ⟨⟩)
  | cons c rest => rfl

-- Beyond 64 bits a sum wraps around, here past zero.
example : parse "9223372036854775807+9223372036854775807+3".toList = .ok (ofInt 1) := by decide

end Fold

/-- A sum of terms as it may be written. There is a sign between any two terms, and no number or sum
of the first terms goes beyond 64 bits. -/
structure WrittenSum where
  summands : List Summand
  /-- What stands behind the last term. -/
  back : List Char
  isRun : IsRun back
  joined : ∀ x ∈ summands.tail, signed x.signs = true
  fits : ∀ part ∈ summands.inits, FitsSigned 64 (total part)

namespace WrittenSum

variable {s : WrittenSum}

def text (s : WrittenSum) : List Char := s.summands.flatMap Summand.full ++ s.back

/-- The sums that stand for a value: a term is the last, and at most one is a symbol, with an even
number of minus signs in front of it. -/
structure Proper (s : WrittenSum) : Prop where
  nonempty : s.summands ≠ []
  closed : signed s.back = false
  oneSymbol : (symbols s.summands).length ≤ 1
  positive : ∀ x ∈ s.summands, x.value.symbol.isSome = true → x.negated = false

/-- Nothing wraps around in a sum whose parts fit. -/
theorem eq_sum_iff {part : List Summand} (hpart : part <+: s.summands) :
    e = ⟨(symbols part).head?, .ofInt (total part)⟩ ↔
      e.symbol = (symbols part).head? ∧ e.offset = total part := by
  have hexact := toInt_ofInt_of_fits (s.fits part ((List.mem_inits _ _).mpr hpart))
  constructor
  · rintro rfl
    exact ⟨rfl, hexact⟩
  · rintro ⟨hsymbol, hoffset⟩
    have haddend : e.addend = .ofInt (total part) := by
      rw [← hoffset, offset, Int64.ofInt_toInt]
    rw [← hsymbol, ← haddend]

theorem parse_text_eq_ok_iff : parse s.text = .ok e ↔
    s.Proper ∧ e.symbol = (symbols s.summands).head? ∧ e.offset = total s.summands := by
  rw [← eq_sum_iff List.prefix_rfl]
  rw [parse_eq_ok_iff, text]
  cases hsummands : s.summands with
  | nil =>
    rw [List.flatMap_nil, List.nil_append, terms_run s.isRun]
    refine iff_of_false (by rintro ⟨⟩) ?_
    rintro ⟨hproper, -⟩
    exact hproper.nonempty hsummands
  | cons x xs =>
    have hjoined : ∀ y ∈ xs, signed y.signs = true := by
      have hjoined := s.joined
      rwa [hsummands] at hjoined
    rw [terms_summands s.isRun hjoined]
    cases hsigned : signed s.back with
    | true =>
      refine iff_of_false (foldlM_dangling hsigned) ?_
      rintro ⟨hproper, -⟩
      rw [hproper.closed] at hsigned
      cases hsigned
    | false =>
      rw [dangling, hsigned, if_neg Bool.false_ne_true, List.append_nil, foldlM_addTerm_zero,
        ← hsummands]
      constructor
      · rintro ⟨hpositive, hone, rfl⟩
        exact ⟨⟨hsummands ▸ List.cons_ne_nil _ _, hsigned, hone, hpositive⟩, rfl⟩
      · rintro ⟨hproper, rfl⟩
        exact ⟨hproper.positive, hproper.oneSymbol, rfl⟩

theorem exact_addTerm {whole : List Char} {part : List Summand} (hpart : part <+: s.summands)
    (h : (part.map Summand.term).foldlM (addTerm whole) (ofInt 0) = .ok e) :
    e.offset = total part :=
  ((eq_sum_iff hpart).mp (foldlM_addTerm_zero.mp h).2.2).2

end WrittenSum

/-- A sum is read as its symbol and its exact value. Two symbols, a symbol behind an odd number of
minus signs and signs at the end are errors. -/
theorem parse_sum (s : WrittenSum) :
    (s.Proper → ∃ e, parse s.text = .ok e ∧ e.symbol = (symbols s.summands).head? ∧
        e.offset = total s.summands) ∧
      ((2 ≤ (symbols s.summands).length ∨
          (∃ x ∈ s.summands, x.value.symbol.isSome = true ∧ x.negated = true) ∨
          signed s.back = true) →
        ∃ err, parse s.text = .error err) := by
  refine ⟨fun h => ?_, fun h => ?_⟩
  · have hsum := (WrittenSum.eq_sum_iff (s := s) List.prefix_rfl).mp rfl
    exact ⟨_, WrittenSum.parse_text_eq_ok_iff.mpr ⟨h, hsum⟩, hsum⟩
  cases hparse : parse s.text with
  | error err => exact ⟨err, rfl⟩
  | ok e =>
    obtain ⟨hproper, -⟩ := WrittenSum.parse_text_eq_ok_iff.mp hparse
    rcases h with htwo | ⟨x, hx, hsymbol, hnegated⟩ | hsigned
    · have hone := hproper.oneSymbol
      omega
    · rw [hproper.positive x hx hsymbol] at hnegated
      cases hnegated
    · rw [hproper.closed] at hsigned
      cases hsigned

def sampleSum : WrittenSum where
  summands := [
    ⟨" - -".toList, "loop".toList, _, by decide, .symbol (by decide)⟩,
    ⟨" + ".toList, "$".toList ++ "1F".toList, _, by decide,
      .number (by decide : ("$", 16) ∈ marks) (by decide) (List.all_iff_forall_prop.mp (by decide))
        (by decide)⟩,
    ⟨" -".toList, ['\'', '-', '\''], _, by decide, .character (by decide) (by decide)⟩,
    ⟨" - +".toList, "%".toList ++ "101".toList, _, by decide,
      .number (by decide : ("%", 2) ∈ marks) (by decide) (List.all_iff_forall_prop.mp (by decide))
        (by decide)⟩,
    ⟨"+-".toList, "".toList ++ "16".toList, _, by decide,
      .number (by decide : ("", 10) ∈ marks) (by decide) (List.all_iff_forall_prop.mp (by decide))
        (by decide)⟩]
  back := " ".toList
  isRun := by decide
  joined := by decide
  fits := by decide

theorem parse_sum_sample :
    parse " - -loop + $1F -'-' - +%101+-16 ".toList = .ok ⟨some "loop", -35⟩ ∧
      (∃ err, parse "a+b".toList = .error err) ∧ (∃ err, parse "-a".toList = .error err) ∧
      ∃ err, parse "a - ".toList = .error err := by
  refine ⟨?_, ?_, ?_, ?_⟩
  · obtain ⟨⟨symbol, addend⟩, hparse, hsymbol, hoffset⟩ :=
      (parse_sum sampleSum).1 ⟨by decide, by decide, by decide, by decide⟩
    have haddend : addend = -35 := Int64.toInt_inj.mp hoffset
    rwa [show symbol = some "loop" from hsymbol, haddend] at hparse
  · exact (parse_sum ⟨[⟨[], "a".toList, _, by decide, .symbol (by decide)⟩,
      ⟨['+'], "b".toList, _, by decide, .symbol (by decide)⟩], [], by decide, by decide,
      by decide⟩).2 (.inl (by decide))
  · exact (parse_sum ⟨[⟨['-'], "a".toList, _, by decide, .symbol (by decide)⟩], [], by decide,
      by decide, by decide⟩).2 (.inr (.inl (by decide)))
  · exact (parse_sum ⟨[⟨[], "a".toList, _, by decide, .symbol (by decide)⟩], " - ".toList,
      by decide, by decide, by decide⟩).2 (.inr (.inr (by decide)))

end Assembly.Expression

end ColdFire
