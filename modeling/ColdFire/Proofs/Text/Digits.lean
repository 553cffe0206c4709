import ColdFire.Proofs.Text.Cut
import ColdFire.Text.Number
import ColdFire.Text.Radix
import Mathlib.Data.Nat.Digits.Defs
import Mathlib.Tactic.Ring

namespace ColdFire.Text

def plain : List Char :=
  ['0', '1', '2', '3', '4', '5', '6', '7', '8', '9', 'a', 'b', 'c', 'd', 'e', 'f', 'g', 'h', 'i',
    'j', 'k', 'l', 'm', 'n', 'o', 'p', 'q', 'r', 's', 't', 'u', 'v', 'w', 'x', 'y', 'z']

/-- What stands between the commas of an operand in memory. -/
def innerInk : List Char := plain ++ ['-', '*', '.']

/-- What stands outside the parentheses of an operand. -/
def outerInk : List Char := innerInk ++ ['+', '#', '/', ':']

/-- The characters that the operands of a listing are made of. -/
def ink : List Char := outerInk ++ ['(', ')', ',']

theorem toNat_lt_of_isAlphanum {c : Char} (h : c.isAlphanum = true) : c.toNat < 123 := by
  have hle (d : Char) (hd : d.toNat < 123) (hcd : c.val ≤ d.val) : c.toNat < 123 :=
    Nat.lt_of_le_of_lt (UInt32.le_iff_toNat_le.mp hcd) hd
  change ((c.isUpper || c.isLower) || c.isDigit) = true at h
  rw [Bool.or_eq_true, Bool.or_eq_true] at h
  obtain (hupper | hlower) | hdigit := h
  · exact hle 'Z' (by decide) (of_decide_eq_true hupper).2
  · exact hle 'z' (by decide) (of_decide_eq_true (Bool.and_eq_true_iff.mp hlower).2)
  · exact hle '9' (by decide) (of_decide_eq_true (Bool.and_eq_true_iff.mp hdigit).2)

theorem mem_plain {c : Char} (h : (c.isLower || c.isDigit) = true) : c ∈ plain := by
  have hall : ∀ n < 123, ((Char.ofNat n).isLower || (Char.ofNat n).isDigit) = true →
      Char.ofNat n ∈ plain := by decide
  have halphanum : c.isAlphanum = true := by
    change ((c.isUpper || c.isLower) || c.isDigit) = true
    rw [Bool.or_assoc, h, Bool.or_true]
  have hlt : c.toNat < 123 := toNat_lt_of_isAlphanum halphanum
  rw [← Char.ofNat_toNat c] at h ⊢
  exact hall _ hlt h

theorem plain_subset_innerInk : plain ⊆ innerInk := List.subset_append_left _ _

theorem innerInk_subset_outerInk : innerInk ⊆ outerInk := List.subset_append_left _ _

theorem outerInk_subset_ink : outerInk ⊆ ink := List.subset_append_left _ _

theorem innerInk_subset_ink : innerInk ⊆ ink :=
  List.Subset.trans innerInk_subset_outerInk outerInk_subset_ink

theorem plain_subset_ink : plain ⊆ ink :=
  List.Subset.trans plain_subset_innerInk innerInk_subset_ink

theorem isBlank_of_ink : ∀ c ∈ ink, isBlank c = false := List.all_iff_forall_prop.mp (by decide)

theorem toLower_of_ink : ∀ c ∈ ink, c.toLower = c := List.all_iff_forall_prop.mp (by decide)

variable {c : Char} {cs : List Char} {radix n : Nat}

theorem trim_of_ink (h : cs ⊆ ink) : trim cs = cs := trim_of_all fun c hc => isBlank_of_ink c (h hc)

theorem lower_of_ink (h : cs ⊆ ink) : lower cs = cs := by
  rw [lower, List.map_congr_left fun c hc => toLower_of_ink c (h hc), List.map_id']

theorem digitChar_mem_plain : ∀ n < 16, n.digitChar ∈ plain := by decide

theorem digitValue?_digitChar_sixteen : ∀ n < 16, digitValue? 16 n.digitChar = some n := by decide

theorem digitValue?_digitChar (hradix : radix ≤ 16) (hn : n < radix) :
    digitValue? radix n.digitChar = some n := by
  have h := digitValue?_digitChar_sixteen n (Nat.lt_of_lt_of_le hn hradix)
  unfold digitValue? at h ⊢
  rw [Option.filter_eq_some_iff] at h ⊢
  exact ⟨h.1, decide_eq_true hn⟩

theorem digitsFrom?_append {acc : Nat} {ds : List Char} :
    digitsFrom? radix acc (cs ++ ds) =
      (digitsFrom? radix acc cs).bind fun n => digitsFrom? radix n ds := by
  induction cs generalizing acc with
  | nil => rfl
  | cons c cs ih =>
    rw [List.cons_append, digitsFrom?, digitsFrom?, Option.bind_assoc]
    exact congrArg _ (funext fun v => ih)

theorem digitsFrom?_digitChar {acc : Nat} (hradix : radix ≤ 16) (hn : n < radix) :
    digitsFrom? radix acc [n.digitChar] = some (acc * radix + n) := by
  rw [digitsFrom?, digitValue?_digitChar hradix hn]
  rfl

theorem readInt64?_of_digits? (h : digits? radix cs = some n) (hn : n < 0x8000000000000000) :
    readInt64? radix cs = some (n : Int) := by
  -- a sign has no value as a digit
  have hvalue : readInt64? radix cs = ((digits? radix cs).map Int.ofNat).filter fun v =>
      -0x8000000000000000 ≤ v ∧ v < 0x8000000000000000 := by
    unfold readInt64?
    split
    · cases h
    · cases h
    · rfl
  rw [hvalue, h, Option.map_some, Option.filter_some, if_pos]
  · rfl
  · rw [decide_eq_true_eq]
    change -0x8000000000000000 ≤ (n : Int) ∧ (n : Int) < 0x8000000000000000
    omega

section Numeral

/-- The value of a letter or digit as a digit; letters of either case count on from ten. -/
def digitValue (c : Char) : Nat := plain.idxOf c.toLower

def IsDigit (radix : Nat) (c : Char) : Prop := c.isAlphanum = true ∧ digitValue c < radix

instance : Decidable (IsDigit radix c) := inferInstanceAs (Decidable (_ ∧ _))

/-- The number that digits denote, the first of them the most significant. -/
def numeral (radix : Nat) (digits : List Char) : Nat :=
  Nat.ofDigits radix (digits.reverse.map digitValue)

theorem digitValue?_eq (h : IsDigit radix c) : digitValue? radix c = some (digitValue c) := by
  have hall : ∀ n < 123, (Char.ofNat n).isAlphanum = true →
      digitValue? 36 (Char.ofNat n) = some (digitValue (Char.ofNat n)) := by decide
  have hvalue : digitValue? 36 c = some (digitValue c) := by
    have hlt : c.toNat < 123 := toNat_lt_of_isAlphanum h.1
    rw [← Char.ofNat_toNat c] at h ⊢
    exact hall _ hlt h.1
  unfold digitValue? at hvalue ⊢
  rw [Option.filter_eq_some_iff] at hvalue ⊢
  exact ⟨hvalue.1, decide_eq_true h.2⟩

theorem digitsFrom?_eq {acc : Nat} (h : ∀ c ∈ cs, IsDigit radix c) :
    digitsFrom? radix acc cs = some (acc * radix ^ cs.length + numeral radix cs) := by
  induction cs generalizing acc with
  | nil => simp [digitsFrom?, numeral]
  | cons c cs ih =>
    obtain ⟨hc, hcs⟩ := List.forall_mem_cons.mp h
    have hnumeral : numeral radix (c :: cs) =
        numeral radix cs + radix ^ cs.length * digitValue c := by
      rw [numeral, List.reverse_cons, List.map_append, Nat.ofDigits_append, List.length_map,
        List.length_reverse, List.map_singleton, Nat.ofDigits_singleton, numeral]
    rw [digitsFrom?, digitValue?_eq hc, Option.bind_some, ih hcs, hnumeral, List.length_cons,
      Option.some_inj]
    ring

theorem digits?_eq (hne : cs ≠ []) (h : ∀ c ∈ cs, IsDigit radix c) :
    digits? radix cs = some (numeral radix cs) := by
  rw [digits?, if_neg (by simpa using hne), digitsFrom?_eq h, Nat.zero_mul, Nat.zero_add]

end Numeral

variable (hone : 1 < radix) (hradix : radix ≤ 16)

include hone

theorem exists_digitChar : ∀ c ∈ Nat.toDigits radix n, ∃ d < radix, c = d.digitChar := by
  induction n using Nat.base_induction radix hone with
  | single d hd =>
    rw [Nat.toDigits_of_lt_base hd, List.forall_mem_singleton]
    exact ⟨d, hd, rfl⟩
  | digit m d hd hm ih =>
    rw [← Nat.toDigits_append_toDigits hone hm hd, Nat.toDigits_of_lt_base hd,
      List.forall_mem_append, List.forall_mem_singleton]
    exact ⟨ih, d, hd, rfl⟩

include hradix

theorem toDigits_subset_plain : Nat.toDigits radix n ⊆ plain := by
  intro c hc
  obtain ⟨d, hd, rfl⟩ := exists_digitChar hone c hc
  exact digitChar_mem_plain d (Nat.lt_of_lt_of_le hd hradix)

theorem isDigit_toDigits : ∀ c ∈ Nat.toDigits radix n, IsDigit radix c := by
  have hall : ∀ d < 16, d.digitChar.isAlphanum = true ∧ digitValue d.digitChar = d := by decide
  intro c hc
  obtain ⟨d, hd, rfl⟩ := exists_digitChar hone c hc
  obtain ⟨halphanum, hvalue⟩ := hall d (Nat.lt_of_lt_of_le hd hradix)
  exact ⟨halphanum, hvalue.symm ▸ hd⟩

theorem digitsFrom?_toDigits : digitsFrom? radix 0 (Nat.toDigits radix n) = some n := by
  induction n using Nat.base_induction radix hone with
  | single d hd =>
    rw [Nat.toDigits_of_lt_base hd, digitsFrom?_digitChar hradix hd, Nat.zero_mul, Nat.zero_add]
  | digit m d hd hm ih =>
    rw [← Nat.toDigits_append_toDigits hone hm hd, Nat.toDigits_of_lt_base hd, digitsFrom?_append,
      ih, Option.bind_some, digitsFrom?_digitChar hradix hd, Nat.mul_comm]

theorem digits?_toDigits : digits? radix (Nat.toDigits radix n) = some n := by
  rw [digits?, if_neg (by simp), digitsFrom?_toDigits hone hradix]

theorem readInt64?_toDigits (hn : n < 0x8000000000000000) :
    readInt64? radix (Nat.toDigits radix n) = some (n : Int) :=
  readInt64?_of_digits? (digits?_toDigits hone hradix) hn

end ColdFire.Text
