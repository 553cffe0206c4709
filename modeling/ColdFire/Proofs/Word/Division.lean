import ColdFire.Execution.Arithmetic
import ColdFire.Proofs.Word.Number

namespace ColdFire

/-- `n` is divided by `d` toward zero. -/
structure Division (n d q r : Int) : Prop where
  exact : n = q * d + r
  small : r.natAbs < d.natAbs
  nonneg : 0 ≤ n → 0 ≤ r
  nonpos : n ≤ 0 → r ≤ 0

theorem Division.of_ne_zero (n : Int) {d : Int} (hd : d ≠ 0) :
    Division n d (n.tdiv d) (n.tmod d) where
  exact := (Int.tdiv_mul_add_tmod n d).symm
  small := by
    rw [Int.natAbs_tmod]
    exact Nat.mod_lt _ (Int.natAbs_pos.2 hd)
  nonneg := Int.tmod_nonneg d
  nonpos hn := by
    have hneg : 0 ≤ (-n).tmod d := Int.tmod_nonneg d (by omega)
    rw [Int.neg_tmod] at hneg
    omega

def Fits (isSigned : Bool) (bits : Nat) (v : Int) : Prop :=
  if isSigned then FitsSigned bits v else FitsUnsigned bits v

instance (isSigned : Bool) (bits : Nat) (v : Int) : Decidable (Fits isSigned bits v) :=
  inferInstanceAs (Decidable (if isSigned then _ else _))

@[simp] theorem fits_true {bits : Nat} {v : Int} : Fits true bits v ↔ FitsSigned bits v := Iff.rfl

@[simp] theorem fits_false {bits : Nat} {v : Int} : Fits false bits v ↔ FitsUnsigned bits v :=
  Iff.rfl

theorem Division.fits {isSigned : Bool} {bits : Nat} {n d q r : Int} (h : Division n d q r)
    (hd : Fits isSigned bits d) (hn : isSigned = false → 0 ≤ n) : Fits isSigned bits r := by
  have hsmall := h.small
  cases isSigned with
  | true =>
    rw [fits_true] at hd ⊢
    obtain ⟨hlo, hhi⟩ := hd
    exact ⟨by omega, by omega⟩
  | false =>
    rw [fits_false] at hd ⊢
    obtain ⟨hlo, hhi⟩ := hd
    have hr := h.nonneg (hn rfl)
    exact ⟨hr, by omega⟩

namespace Size

/-- The number that the low part of `v` stands for, with or without a sign. -/
def number (s : Size) (isSigned : Bool) (v : UInt32) : Int :=
  if isSigned then s.signed v else s.unsigned v

variable {s : Size} {isSigned : Bool} {v w : UInt32}

@[simp] theorem number_true : s.number true v = s.signed v := if_pos rfl

@[simp] theorem number_false : s.number false v = s.unsigned v := if_neg Bool.false_ne_true

theorem number_congr (h : s.unsigned v = s.unsigned w) :
    s.number isSigned v = s.number isSigned w := by
  unfold number
  rw [h, signed_eq_iff.2 h]

theorem fits_number (s : Size) (isSigned : Bool) (v : UInt32) :
    Fits isSigned s.bits (s.number isSigned v) := by
  have hlt := s.unsigned_lt v
  have hrange := s.two_pow_bits
  have hcases := s.signed_cases v
  cases isSigned <;>
    simp only [fits_true, fits_false, number_true, number_false, FitsSigned, FitsUnsigned] <;> omega

theorem number_eq_zero : s.number isSigned v = 0 ↔ s.unsigned v = 0 := by
  have hlt := s.unsigned_lt v
  have hrange := s.two_pow_bits
  have hcases := s.signed_cases v
  cases isSigned <;> simp only [number_true, number_false] <;> omega

/-- The topmost bit belongs to the numbers below zero, or without a sign to the upper half. -/
theorem sign_eq_number (s : Size) (isSigned : Bool) (v : UInt32) : s.sign v =
    decide (s.number isSigned v < 0 ∨ (2 ^ (s.bits - 1) : Nat) ≤ s.number isSigned v) := by
  have hlt := s.unsigned_lt v
  have hrange := s.two_pow_bits
  have hcases := s.signed_cases v
  rw [sign_eq_decide, decide_eq_decide]
  cases isSigned <;> simp only [number_true, number_false] <;> omega

theorem signed_long (v : UInt32) : long.signed v = v.toInt32.toInt :=
  (BitVec.toInt_eq_toNat_bmod v.toBitVec).symm

theorem number_eq_of_fits (h : Fits isSigned s.bits (long.number isSigned v)) :
    s.number isSigned v = long.number isSigned v := by
  cases isSigned with
  | true =>
    -- a number with a sign is one modulo the range, and the ranges divide each other
    have hdvd : 2 ^ s.bits ∣ 2 ^ long.bits := by cases s <;> decide
    have hrange := s.two_pow_bits
    obtain ⟨hlo, hhi⟩ := fits_true.1 h
    rw [number_true] at hlo hhi
    have hagain : s.signed v = Int.bmod (long.signed v) (2 ^ s.bits) :=
      (Int.bmod_bmod_of_dvd hdvd).symm
    rw [number_true, number_true, hagain]
    exact Int.bmod_eq_of_le (by omega) (by omega)
  | false =>
    obtain ⟨-, hlt⟩ := fits_false.1 h
    rw [number_false, unsigned_long] at hlt
    rw [number_false, number_false, unsigned_long]
    exact congrArg Int.ofNat (Nat.mod_eq_of_lt (by omega))

theorem signed_signExtend (s : Size) (v : UInt32) : long.signed (s.signExtend v) = s.signed v := by
  rw [signed_long]
  cases s with
  | byte =>
    rw [toInt32_signExtend_byte, Int8.toInt_toInt32]
    refine (BitVec.toInt_eq_toNat_bmod v.toUInt8.toBitVec).trans ?_
    change Int.bmod (v.toUInt8.toNat : Int) (2 ^ 8) = Int.bmod v.toNat (2 ^ 8)
    rw [UInt32.toNat_toUInt8, Int.natCast_emod]
    exact Int.emod_bmod _ _
  | word =>
    change v.toUInt16.toInt16.toInt32.toUInt32.toInt32.toInt = _
    rw [Int32.toInt32_toUInt32, Int16.toInt_toInt32]
    refine (BitVec.toInt_eq_toNat_bmod v.toUInt16.toBitVec).trans ?_
    change Int.bmod (v.toUInt16.toNat : Int) (2 ^ 16) = Int.bmod v.toNat (2 ^ 16)
    rw [UInt32.toNat_toUInt16, Int.natCast_emod]
    exact Int.emod_bmod _ _
  | long => exact (signed_long v).symm

section Halves

variable (high low : UInt32)

theorem toNat_halves : ((high <<< 16) ||| (low &&& 0xFFFF)).toNat =
    2 ^ 16 * word.unsigned high + word.unsigned low := by
  have hlow : (low &&& 0xFFFF).toNat = word.unsigned low := toNat_and_mask word low
  have hhigh : (high <<< 16).toNat = 2 ^ 16 * word.unsigned high := by
    rw [UInt32.toNat_shiftLeft]
    change high.toNat <<< 16 % 2 ^ 32 = 2 ^ 16 * (high.toNat % 2 ^ 16)
    rw [Nat.shiftLeft_eq]
    omega
  rw [UInt32.toNat_or, hhigh, hlow]
  exact (Nat.two_pow_add_eq_or_of_lt (i := 16) (word.unsigned_lt low) _).symm

theorem unsigned_low : word.unsigned ((high <<< 16) ||| (low &&& 0xFFFF)) = word.unsigned low := by
  have hlt := word.unsigned_lt low
  rw [unsigned, toNat_halves]
  change _ % 2 ^ 16 = _
  change _ < 2 ^ 16 at hlt
  omega

theorem unsigned_high :
    word.unsigned (((high <<< 16) ||| (low &&& 0xFFFF)) >>> 16) = word.unsigned high := by
  have hlt := word.unsigned_lt low
  have hlt' := word.unsigned_lt high
  rw [unsigned, UInt32.toNat_shiftRight, toNat_halves, Nat.shiftRight_eq_div_pow]
  change _ / 2 ^ 16 % 2 ^ 16 = _
  change _ < 2 ^ 16 at hlt hlt'
  omega

end Halves

end Size

theorem divide_signed (dividend divisor : UInt32) (s : Size) : divide dividend divisor true s.bits =
    if FitsSigned s.bits ((Size.long.signed dividend).tdiv (Size.long.signed divisor)) then
      some ((Int32.ofInt ((Size.long.signed dividend).tdiv (Size.long.signed divisor))).toUInt32,
        (Int32.ofInt ((Size.long.signed dividend).tmod (Size.long.signed divisor))).toUInt32)
    else none := by
  rw [divide, if_pos rfl, Nat.one_shiftLeft, ← Size.signed_long, ← Size.signed_long]
  rfl

theorem divide_unsigned (dividend divisor : UInt32) (s : Size) :
    divide dividend divisor false s.bits =
      if dividend.toNat / divisor.toNat < 2 ^ s.bits then
        some (UInt32.ofNat (dividend.toNat / divisor.toNat), dividend % divisor)
      else none := by
  rw [divide, if_neg Bool.false_ne_true, Nat.one_shiftLeft]

theorem signed_ofInt {v : Int} (h : FitsSigned 32 v) :
    Size.long.signed (Int32.ofInt v).toUInt32 = v := by
  obtain ⟨hlo, hhi⟩ := h
  rw [Size.signed_long, Int32.toInt32_toUInt32, Int32.toInt_ofInt]
  change Int.bmod v (2 ^ 32) = v
  exact Int.bmod_eq_of_le (by omega) (by omega)

section Divide

variable {dividend divisor : UInt32} {isSigned : Bool} {s : Size}

theorem divide_of_fits (dividend : UInt32) (hne : Size.long.number isSigned divisor ≠ 0)
    (hfits : Fits isSigned s.bits
      ((Size.long.number isSigned dividend).tdiv (Size.long.number isSigned divisor))) :
    ∃ q r, divide dividend divisor isSigned s.bits = some (q, r) ∧
      Size.long.number isSigned q =
        (Size.long.number isSigned dividend).tdiv (Size.long.number isSigned divisor) ∧
      Size.long.number isSigned r =
        (Size.long.number isSigned dividend).tmod (Size.long.number isSigned divisor) := by
  cases isSigned with
  | true =>
    simp only [Size.number_true, fits_true] at hne hfits ⊢
    have hsmall := (Division.of_ne_zero (Size.long.signed dividend) hne).small
    have hdivisor := Size.long.fits_number true divisor
    simp only [Size.number_true, fits_true] at hdivisor
    rw [divide_signed, if_pos hfits]
    refine ⟨_, _, rfl, signed_ofInt ?_, signed_ofInt ?_⟩
    · obtain ⟨hlo, hhi⟩ := hfits
      have hle : 2 ^ (s.bits - 1) ≤ 2 ^ (32 - 1) := by cases s <;> decide
      exact ⟨by omega, by omega⟩
    · -- the remainder of a divisor of -2 ^ 31 is below 2 ^ 31 for it is smaller than the divisor
      obtain ⟨hlo, hhi⟩ := hdivisor
      change -((2 ^ 31 : Nat) : Int) ≤ _ at hlo
      change _ < ((2 ^ 31 : Nat) : Int) at hhi
      exact ⟨by omega, by omega⟩
  | false =>
    simp only [Size.number_false, fits_false, Size.unsigned_long] at hne hfits ⊢
    rw [← Int.ofNat_tdiv] at hfits ⊢
    rw [← Int.ofNat_tmod]
    obtain ⟨-, hlt⟩ := hfits
    rw [divide_unsigned, if_pos (by omega)]
    refine ⟨_, _, rfl, congrArg Int.ofNat ?_, congrArg Int.ofNat (UInt32.toNat_mod _ _)⟩
    rw [UInt32.toNat_ofNat']
    exact Nat.mod_eq_of_lt (Nat.lt_of_le_of_lt (Nat.div_le_self _ _) dividend.toNat_lt)

theorem divide_of_not_fits (hfits : ¬ Fits isSigned s.bits
      ((Size.long.number isSigned dividend).tdiv (Size.long.number isSigned divisor))) :
    divide dividend divisor isSigned s.bits = none := by
  cases isSigned with
  | true =>
    simp only [Size.number_true, fits_true] at hfits
    rw [divide_signed, if_neg hfits]
  | false =>
    simp only [Size.number_false, fits_false, Size.unsigned_long] at hfits
    rw [← Int.ofNat_tdiv] at hfits
    rw [divide_unsigned, if_neg]
    intro hlt
    exact hfits ⟨Int.natCast_nonneg _, Int.ofNat_lt.2 hlt⟩

end Divide

section Checked

/-- A number as a 64-bit word with a sign, if it is in the range of these. -/
def int64? (v : Int) : Option Int64 := if FitsSigned 64 v then some (Int64.ofInt v) else none

def uint64? (v : Nat) : Option UInt64 := if v < 2 ^ 64 then some (UInt64.ofNat v) else none

/-- The division as it is done with 64-bit words. There is no result if a word is divided by zero,
or if any number on the way is out of range. -/
def divideChecked (dividend divisor : UInt32) (isSigned : Bool) (bits : Nat) :
    Option (Option (UInt32 × UInt32)) :=
  if isSigned then do
    let a := dividend.toInt32.toInt64
    let b := divisor.toInt32.toInt64
    guard (b ≠ 0)
    let q ← int64? (a.toInt.tdiv b.toInt)
    let r ← int64? (a.toInt.tmod b.toInt)
    let limit ← int64? (2 ^ (bits - 1) : Nat)
    let low ← int64? (-limit.toInt)
    return if low ≤ q ∧ q < limit then some (q.toInt32.toUInt32, r.toInt32.toUInt32) else none
  else do
    let a := dividend.toUInt64
    let b := divisor.toUInt64
    guard (b ≠ 0)
    let q := a / b
    let limit ← uint64? (2 ^ bits)
    return if q < limit then some (q.toUInt32, (a % b).toUInt32) else none

theorem toInt_ofInt64 {v : Int} (h : FitsSigned 64 v) : (Int64.ofInt v).toInt = v := by
  obtain ⟨hlo, hhi⟩ := h
  rw [Int64.toInt_ofInt]
  change Int.bmod v (2 ^ 64) = v
  exact Int.bmod_eq_of_le (by omega) (by omega)

/-- With a divisor the division of registers stays in the range of 64-bit words. -/
theorem divideChecked_eq (dividend : UInt32) {divisor : UInt32} (isSigned : Bool) (s : Size)
    (hne : Size.long.number isSigned divisor ≠ 0) :
    divideChecked dividend divisor isSigned s.bits =
      some (divide dividend divisor isSigned s.bits) := by
  cases isSigned with
  | true =>
    simp only [Size.number_true] at hne
    have hsmall := (Division.of_ne_zero (Size.long.signed dividend) hne).small
    have hshrinks :=
      Int.natAbs_tdiv_le_natAbs (Size.long.signed dividend) (Size.long.signed divisor)
    have hdividend := Size.long.fits_number true dividend
    have hdivisor := Size.long.fits_number true divisor
    simp only [Size.number_true, fits_true, FitsSigned] at hdividend hdivisor
    have hlong : 2 ^ (Size.long.bits - 1) = 2 ^ 31 := rfl
    have hlimit : 2 ^ (s.bits - 1) ≤ 2 ^ 31 := by cases s <;> decide
    rw [hlong] at hdividend hdivisor
    -- the smallest dividend by minus one is 2 ^ 31, which a 64-bit word has room for
    have hquotient : FitsSigned 64
        ((Size.long.signed dividend).tdiv (Size.long.signed divisor)) := ⟨by omega, by omega⟩
    have hremainder : FitsSigned 64
        ((Size.long.signed dividend).tmod (Size.long.signed divisor)) := ⟨by omega, by omega⟩
    have hbound : FitsSigned 64 (2 ^ (s.bits - 1) : Nat) ∧
        FitsSigned 64 (-(2 ^ (s.bits - 1) : Nat)) := by
      generalize 2 ^ (s.bits - 1) = limit at hlimit
      exact ⟨⟨by omega, by omega⟩, by omega, by omega⟩
    have hnonzero : divisor.toInt32.toInt64 ≠ 0 := by
      rw [Size.signed_long, ← Int32.toInt_toInt64] at hne
      exact fun h => hne (congrArg Int64.toInt h)
    rw [divide_signed, divideChecked, if_pos rfl]
    simp only [Int32.toInt_toInt64, ← Size.signed_long, guard, if_pos hnonzero, int64?,
      if_pos hquotient, if_pos hremainder, if_pos hbound.1, if_pos hbound.2, Option.bind_eq_bind,
      Option.pure_def, Option.bind_some, toInt_ofInt64 hbound.1, toInt_ofInt64 hbound.2,
      toInt_ofInt64 hquotient, Int64.le_iff_toInt_le, Int64.lt_iff_toInt_lt, Int64.toInt32_ofInt]
    rfl
  | false =>
    simp only [Size.number_false, Size.unsigned_long] at hne
    have hlimit : 2 ^ s.bits < 2 ^ 64 := by cases s <;> decide
    have hnonzero : divisor.toUInt64 ≠ 0 := fun h => hne (by
      rw [← UInt32.toNat_toUInt64, h]
      rfl)
    have hquotient : (dividend.toUInt64 / divisor.toUInt64).toUInt32 =
        UInt32.ofNat (dividend.toNat / divisor.toNat) := by
      rw [← UInt32.toNat_inj, UInt64.toNat_toUInt32, UInt64.toNat_div, UInt32.toNat_ofNat']
      rfl
    have hremainder : (dividend.toUInt64 % divisor.toUInt64).toUInt32 = dividend % divisor := by
      rw [← UInt32.toNat_inj, UInt64.toNat_toUInt32, UInt64.toNat_mod, UInt32.toNat_mod]
      exact Nat.mod_eq_of_lt (Nat.lt_of_le_of_lt (Nat.mod_le _ _) dividend.toNat_lt)
    rw [divide_unsigned, divideChecked, if_neg Bool.false_ne_true]
    simp only [guard, if_pos hnonzero, uint64?, if_pos hlimit, Option.bind_eq_bind,
      Option.pure_def, Option.bind_some, UInt64.lt_iff_toNat_lt, UInt64.toNat_div,
      UInt32.toNat_toUInt64, UInt64.toNat_ofNat', Nat.mod_eq_of_lt hlimit, hquotient, hremainder]

end Checked

end ColdFire
