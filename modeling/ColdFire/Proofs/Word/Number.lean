import ColdFire.Proofs.Word.Width
import Mathlib.Data.Nat.Bitwise

namespace ColdFire

def FitsUnsigned (bits : Nat) (v : Int) : Prop := 0 ≤ v ∧ v < (2 ^ bits : Nat)

def FitsSigned (bits : Nat) (v : Int) : Prop :=
  -(2 ^ (bits - 1) : Nat) ≤ v ∧ v < (2 ^ (bits - 1) : Nat)

instance (bits : Nat) (v : Int) : Decidable (FitsUnsigned bits v) :=
  inferInstanceAs (Decidable (_ ∧ _))

instance (bits : Nat) (v : Int) : Decidable (FitsSigned bits v) :=
  inferInstanceAs (Decidable (_ ∧ _))

/-- The upper half of a range stands for the numbers with a sign. -/
theorem bmod_cases {v half : Nat} (h : v < 2 * half) :
    v < half ∧ Int.bmod v (2 * half) = v ∨
      half ≤ v ∧ Int.bmod v (2 * half) = v - (2 * half : Nat) := by
  have hmod : (v : Int) % (2 * half : Nat) = v := Int.emod_eq_of_lt (by omega) (by omega)
  rw [Int.bmod_def, hmod]
  by_cases hv : half ≤ v
  · exact .inr ⟨hv, if_neg (by omega)⟩
  · exact .inl ⟨by omega, if_pos (by omega)⟩

namespace Size

/-- The low part of `v` as a number without a sign. -/
def unsigned (s : Size) (v : UInt32) : Nat := v.toNat % 2 ^ s.bits

/-- The low part of `v` as a number with a sign. -/
def signed (s : Size) (v : UInt32) : Int := Int.bmod v.toNat (2 ^ s.bits)

def sign (s : Size) (v : UInt32) : Bool := v &&& s.msb != 0

variable {s : Size} {v w : UInt32}

theorem sign_eq_testBit (s : Size) (v : UInt32) : s.sign v = v.toNat.testBit (s.bits - 1) := by
  have hmsb : s.msb.toNat = 2 ^ (s.bits - 1) := by cases s <;> rfl
  have hzero : (v &&& s.msb = 0) ↔ v.toNat.testBit (s.bits - 1) = false := by
    rw [← UInt32.toNat_inj, UInt32.toNat_and, hmsb, Nat.and_two_pow]
    cases v.toNat.testBit (s.bits - 1) <;> simp
  unfold sign
  cases hbit : v.toNat.testBit (s.bits - 1) with
  | false => exact bne_eq_false_iff_eq.2 (hzero.2 hbit)
  | true => exact bne_iff_ne.2 fun h => Bool.false_ne_true ((hzero.1 h).symm.trans hbit)

@[simp] theorem sign_and : s.sign (v &&& w) = (s.sign v && s.sign w) := by
  simp [sign_eq_testBit]

@[simp] theorem sign_or : s.sign (v ||| w) = (s.sign v || s.sign w) := by
  simp [sign_eq_testBit]

@[simp] theorem sign_xor : s.sign (v ^^^ w) = (s.sign v ^^ s.sign w) := by
  simp [sign_eq_testBit]

@[simp] theorem sign_not : s.sign (~~~v) = !s.sign v := by
  have hbit : s.bits - 1 < 32 := by cases s <;> decide
  rw [sign_eq_testBit, sign_eq_testBit]
  change (~~~v).toBitVec.getLsbD (s.bits - 1) = !v.toBitVec.getLsbD (s.bits - 1)
  rw [UInt32.toBitVec_not, BitVec.getLsbD_not, decide_eq_true hbit, Bool.true_and]

@[simp] theorem sign_mask : s.sign s.mask = true := by
  cases s <;> rfl

theorem and_mask_eq_zero : v &&& s.mask = 0 ↔ s.unsigned v = 0 := by
  rw [← UInt32.toNat_inj, toNat_and_mask]
  rfl

theorem unsigned_lt (s : Size) (v : UInt32) : s.unsigned v < 2 ^ s.bits :=
  Nat.mod_lt _ (Nat.two_pow_pos _)

theorem sign_eq_decide (s : Size) (v : UInt32) :
    s.sign v = decide (2 ^ (s.bits - 1) ≤ s.unsigned v) := by
  rw [sign_eq_testBit, Nat.testBit_eq_decide_div_mod_eq, unsigned, decide_eq_decide]
  cases s with
  | byte =>
    change v.toNat / 2 ^ 7 % 2 = 1 ↔ 2 ^ 7 ≤ v.toNat % 2 ^ 8
    omega
  | word =>
    change v.toNat / 2 ^ 15 % 2 = 1 ↔ 2 ^ 15 ≤ v.toNat % 2 ^ 16
    omega
  | long =>
    change v.toNat / 2 ^ 31 % 2 = 1 ↔ 2 ^ 31 ≤ v.toNat % 2 ^ 32
    omega

theorem two_pow_bits (s : Size) : 2 ^ s.bits = 2 * 2 ^ (s.bits - 1) := by
  cases s <;> rfl

theorem signed_cases (s : Size) (v : UInt32) :
    s.unsigned v < 2 ^ (s.bits - 1) ∧ s.signed v = s.unsigned v ∨
      2 ^ (s.bits - 1) ≤ s.unsigned v ∧ s.signed v = s.unsigned v - (2 ^ s.bits : Nat) := by
  have hlt := s.unsigned_lt v
  have hsigned : s.signed v = Int.bmod (s.unsigned v) (2 ^ s.bits) := by
    rw [signed, unsigned, Int.natCast_emod, Int.emod_bmod]
  rw [s.two_pow_bits] at hlt hsigned ⊢
  rw [hsigned]
  exact bmod_cases hlt

theorem sign_eq_signed (s : Size) (v : UInt32) : s.sign v = decide (s.signed v < 0) := by
  have hlt := s.unsigned_lt v
  have hcases := s.signed_cases v
  rw [sign_eq_decide, decide_eq_decide]
  omega

theorem signed_eq_iff : s.signed v = s.signed w ↔ s.unsigned v = s.unsigned w := by
  have hv := s.signed_cases v
  have hw := s.signed_cases w
  have hv' := s.unsigned_lt v
  have hw' := s.unsigned_lt w
  have hrange := s.two_pow_bits
  omega

@[simp] theorem unsigned_long (v : UInt32) : long.unsigned v = v.toNat :=
  Nat.mod_eq_of_lt v.toNat_lt

@[simp] theorem unsigned_mask (s : Size) (v : UInt32) :
    s.unsigned (v &&& s.mask) = s.unsigned v := by
  rw [unsigned, toNat_and_mask, Nat.mod_mod]
  rfl

end Size

end ColdFire
