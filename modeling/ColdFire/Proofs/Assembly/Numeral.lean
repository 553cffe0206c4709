import ColdFire.Proofs.Assembly.Spelling

namespace ColdFire

open Text

theorem Text.toList_hex {n : Nat} : (hex 1 n).toList = '0' :: 'x' :: Nat.toDigits 16 n := by
  have hpad : 1 - (Nat.toDigits 16 n).length = 0 := by
    have := Nat.length_toDigits_pos (b := 16) (n := n)
    omega
  rw [hex, String.toList_ofList, hexDigits, padStart, hpad, List.replicate_zero, List.nil_append]

theorem Text.hex_subset {n : Nat} : (hex 1 n).toList ⊆ plain := by
  rw [toList_hex, List.cons_subset, List.cons_subset]
  exact ⟨by decide, by decide, toDigits_subset_plain (by decide) (by decide)⟩

namespace Assembly

namespace Expression

variable {cs held : List Char} {negated : Bool} {v : Int}

theorem termsFrom_plain (h : cs ⊆ plain) :
    termsFrom negated false held cs = [⟨negated, trim (held.reverse ++ cs)⟩] := by
  have hplain : ∀ c ∈ plain, (c == '\'') = false ∧ (c == '+' || c == '-') = false :=
    List.all_iff_forall_prop.mp (by decide)
  rw [← List.append_nil cs, termsFrom_append fun c hc => hplain c (h hc), termsFrom,
    List.reverse_append, List.reverse_reverse, List.append_nil]

theorem terms_plain (h : cs ⊆ plain) : terms cs = [⟨false, cs⟩] := by
  rw [terms, termsFrom_plain h, List.reverse_nil, List.nil_append,
    trim_of_ink (List.Subset.trans h plain_subset_ink)]

theorem terms_minus_plain (h : cs ⊆ plain) : terms ('-' :: cs) = [⟨true, cs⟩] := by
  rw [terms, termsFrom]
  change termsFrom (false ^^ true) false [] cs = _
  rw [termsFrom_plain h, List.reverse_nil, List.nil_append,
    trim_of_ink (List.Subset.trans h plain_subset_ink)]
  rfl

theorem addTerm_number {whole : List Char} {e : Expression} (hne : cs ≠ [])
    (hv : number? cs = some v) : addTerm whole e ⟨negated, cs⟩ =
      .ok { e with addend := if negated then e.addend - .ofInt v else e.addend + .ofInt v } := by
  rw [addTerm, if_neg (by simpa using hne), hv]

theorem number?_hex {n : Nat} (hn : n < 0x8000000000000000) :
    number? ('0' :: 'x' :: Nat.toDigits 16 n) = some (n : Int) := by
  have hmarked : number? ("0x".toList ++ Nat.toDigits 16 n) = readInt64? 16 (Nat.toDigits 16 n) :=
    number?_marked (by decide) Nat.toDigits_ne_nil (isDigit_toDigits (by decide) (by decide))
  exact hmarked.trans (readInt64?_toDigits (by decide) (by decide) hn)

theorem number?_decimal {n : Nat} (hn : n < 0x8000000000000000) :
    number? (Nat.toDigits 10 n) = some (n : Int) := by
  have hmarked : number? ("".toList ++ Nat.toDigits 10 n) = readInt64? 10 (Nat.toDigits 10 n) :=
    number?_marked (by decide) Nat.toDigits_ne_nil (isDigit_toDigits (by decide) (by decide))
  exact hmarked.trans (readInt64?_toDigits (by decide) (by decide) hn)

end Expression

/-- A text that the assembler takes for a number: a digit with letters and digits behind it, perhaps
with a minus sign in front. -/
inductive Numeral : List Char → Int → Prop where
  | positive {c : Char} {cs : List Char} {v : Int} (hdigit : c.isDigit = true)
      (hplain : c :: cs ⊆ plain) (hv : Expression.number? (c :: cs) = some v) : Numeral (c :: cs) v
  | negative {c : Char} {cs : List Char} {v : Int} (hdigit : c.isDigit = true)
      (hplain : c :: cs ⊆ plain) (hv : Expression.number? (c :: cs) = some v) :
      Numeral ('-' :: c :: cs) (-v)

namespace Numeral

variable {cs : List Char} {v : Int}

theorem hex {n : Nat} (hn : n < 0x8000000000000000) : Numeral (Text.hex 1 n).toList n := by
  have hplain := Text.hex_subset (n := n)
  rw [Text.toList_hex] at hplain ⊢
  exact .positive (by decide) hplain (Expression.number?_hex hn)

theorem int (hlow : -0x8000000000000000 < v) (hhigh : v < 0x8000000000000000) :
    Numeral (toString v).toList v := by
  have hdigits (n : Nat) : ∃ c cs, Nat.toDigits 10 n = c :: cs ∧ c.isDigit = true ∧
      c :: cs ⊆ plain := by
    obtain ⟨c, cs, hcs⟩ := List.exists_cons_of_ne_nil (Nat.toDigits_ne_nil (b := 10) (n := n))
    exact ⟨c, cs, hcs, Nat.isDigit_of_mem_toDigits (by decide) (by decide) (hcs ▸ List.mem_cons_self),
      hcs ▸ toDigits_subset_plain (by decide) (by decide)⟩
  rw [Int.toString_eq_repr, Int.repr_eq_if]
  split
  · obtain ⟨c, cs, hcs, hdigit, hplain⟩ := hdigits v.toNat
    have hv := Expression.number?_decimal (n := v.toNat) (by omega)
    rw [Nat.toList_repr, hcs]
    rw [hcs, Int.toNat_of_nonneg ‹_›] at hv
    exact .positive hdigit hplain hv
  · obtain ⟨c, cs, hcs, hdigit, hplain⟩ := hdigits (-v).toNat
    have hv := Expression.number?_decimal (n := (-v).toNat) (by omega)
    rw [String.toList_append, Nat.toList_repr, hcs]
    rw [hcs, Int.toNat_of_nonneg (by omega)] at hv
    have hneg := Numeral.negative hdigit hplain hv
    rwa [Int.neg_neg] at hneg

theorem parse (h : Numeral cs v) : Expression.parse cs = .ok (.ofInt v) := by
  cases h with
  | positive hdigit hplain hv =>
    rw [Expression.parse, trim_of_ink (List.Subset.trans hplain plain_subset_ink)]
    rw [if_neg (by simp), Expression.terms_plain hplain, List.foldlM_cons,
      Expression.addTerm_number (List.cons_ne_nil _ _) hv]
    simp [Expression.ofInt]
  | negative hdigit hplain hv =>
    rw [Expression.parse, trim_of_ink (by
      rw [List.cons_subset]; exact ⟨by decide, List.Subset.trans hplain plain_subset_ink⟩)]
    rw [if_neg (by simp), Expression.terms_minus_plain hplain, List.foldlM_cons,
      Expression.addTerm_number (List.cons_ne_nil _ _) hv]
    simp [Expression.ofInt]

theorem subset (h : Numeral cs v) : cs ⊆ '-' :: plain := by
  cases h with
  | positive _ hplain _ => exact List.Subset.trans hplain (List.subset_cons_self _ _)
  | negative _ hplain _ =>
    rw [List.cons_subset]
    exact ⟨List.mem_cons_self, List.Subset.trans hplain (List.subset_cons_self _ _)⟩

theorem head (h : Numeral cs v) : ∃ c rest, cs = c :: rest ∧ (c.isDigit = true ∨ c = '-') := by
  cases h with
  | positive hdigit _ _ => exact ⟨_, _, rfl, .inl hdigit⟩
  | negative _ _ _ => exact ⟨_, _, rfl, .inr rfl⟩

end Numeral

end Assembly

end ColdFire
