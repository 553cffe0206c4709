import ColdFire.Cpu.Flags
import ColdFire.Proofs.Word.Number
import Mathlib.Data.Int.ModEq

namespace ColdFire

def AluOp.exact (op : AluOp) (a b carry : Int) : Int :=
  match op with
  | add => a + b + carry
  | sub | cmp => a - b - carry
  | neg => 0 - b - carry

/-- The long that an operation with a carry-in computes, whatever size is meant. -/
def AluOp.result (op : AluOp) (a b : UInt32) (x : Bool) : UInt32 :=
  match op with
  | add => a + b + x.toUInt32
  | sub | cmp => a - b - x.toUInt32
  | neg => 0 - b - x.toUInt32

namespace AluOp

theorem toNat_result (op : AluOp) (a b : UInt32) (x : Bool) :
    ((op.result a b x).toNat : Int) = op.exact a.toNat b.toNat x.toNat % (2 ^ 32 : Nat) := by
  have ha := a.toNat_lt
  have hb := b.toNat_lt
  have hx : x.toUInt32.toNat = x.toNat := by cases x <;> rfl
  have hx' : x.toNat ≤ 1 := x.toNat_le
  cases op with
  | add =>
    change (((a + b + x.toUInt32).toNat : Nat) : Int) = (a.toNat + b.toNat + x.toNat : Int) % _
    rw [UInt32.toNat_add, UInt32.toNat_add, hx]
    omega
  | sub | cmp =>
    change (((a - b - x.toUInt32).toNat : Nat) : Int) = (a.toNat - b.toNat - x.toNat : Int) % _
    rw [UInt32.toNat_sub, UInt32.toNat_sub, hx]
    omega
  | neg =>
    change (((0 - b - x.toUInt32).toNat : Nat) : Int) = (0 - b.toNat - x.toNat : Int) % _
    rw [UInt32.toNat_sub, UInt32.toNat_sub, UInt32.toNat_zero, hx]
    omega

/-- Numbers may be reduced to a range before an operation, if its result is. -/
theorem exact_emod (op : AluOp) (a b carry m : Int) :
    op.exact (a % m) (b % m) carry % m = op.exact a b carry % m := by
  have ha : a % m ≡ a [ZMOD m] := Int.mod_modEq a m
  have hb : b % m ≡ b [ZMOD m] := Int.mod_modEq b m
  cases op with
  | add => exact (ha.add hb).add_right carry
  | sub | cmp => exact (ha.sub hb).sub_right carry
  | neg => exact (hb.sub_left 0).sub_right carry

theorem unsigned_result (op : AluOp) (s : Size) (a b : UInt32) (x : Bool) :
    (s.unsigned (op.result a b x) : Int) =
      op.exact (s.unsigned a) (s.unsigned b) x.toNat % (2 ^ s.bits : Nat) := by
  have hdvd : ((2 ^ s.bits : Nat) : Int) ∣ (2 ^ 32 : Nat) := by cases s <;> decide
  calc (s.unsigned (op.result a b x) : Int)
      = op.exact a.toNat b.toNat x.toNat % (2 ^ 32 : Nat) % (2 ^ s.bits : Nat) := by
        rw [Size.unsigned, Int.natCast_emod, toNat_result]
    _ = op.exact a.toNat b.toNat x.toNat % (2 ^ s.bits : Nat) := Int.emod_emod_of_dvd _ hdvd
    _ = op.exact (s.unsigned a) (s.unsigned b) x.toNat % (2 ^ s.bits : Nat) := by
        rw [Size.unsigned, Size.unsigned, Int.natCast_emod, Int.natCast_emod, exact_emod]

end AluOp

theorem eq_or_of_emod {e m r : Int} (h : r = e % m) (hlo : -m ≤ e) (hhi : e < 2 * m) :
    e = r ∨ e = r + m ∨ e = r - m := by
  by_cases hneg : e < 0
  · rw [← Int.add_emod_right, Int.emod_eq_of_lt (by omega) (by omega)] at h
    omega
  · by_cases hbig : m ≤ e
    · rw [← Int.sub_emod_right, Int.emod_eq_of_lt (by omega) (by omega)] at h
      omega
    · rw [Int.emod_eq_of_lt (by omega) (by omega)] at h
      omega

section Signs

variable (r a b : UInt32) (s : Size)

theorem carryOverflow_add : carryOverflow .add r a b s =
    (decide (s.signed a < 0 ∧ s.signed b < 0 ∨
        (s.signed a < 0 ∨ s.signed b < 0) ∧ ¬ s.signed r < 0),
      decide (¬ (s.signed a < 0 ↔ s.signed r < 0) ∧ ¬ (s.signed b < 0 ↔ s.signed r < 0))) := by
  change (s.sign _, s.sign _) = _
  simp only [Size.sign_and, Size.sign_or, Size.sign_xor, Size.sign_not, Size.sign_mask]
  simp only [Size.sign_eq_signed]
  by_cases ha : s.signed a < 0 <;> by_cases hb : s.signed b < 0 <;>
    by_cases hr : s.signed r < 0 <;> simp [ha, hb, hr]

theorem carryOverflow_sub : carryOverflow .sub r a b s =
    (decide (s.signed b < 0 ∧ ¬ s.signed a < 0 ∨ s.signed r < 0 ∧ ¬ s.signed a < 0 ∨
        s.signed b < 0 ∧ s.signed r < 0),
      decide (¬ (s.signed a < 0 ↔ s.signed b < 0) ∧ ¬ (s.signed a < 0 ↔ s.signed r < 0))) := by
  change (s.sign _, s.sign _) = _
  simp only [Size.sign_and, Size.sign_or, Size.sign_xor, Size.sign_not, Size.sign_mask]
  simp only [Size.sign_eq_signed]
  by_cases ha : s.signed a < 0 <;> by_cases hb : s.signed b < 0 <;>
    by_cases hr : s.signed r < 0 <;> simp [ha, hb, hr]

theorem carryOverflow_neg : carryOverflow .neg r a b s =
    (decide (s.signed b < 0 ∨ s.signed r < 0), decide (s.signed b < 0 ∧ s.signed r < 0)) := by
  change (s.sign _, s.sign _) = _
  simp only [Size.sign_and, Size.sign_or, Size.sign_mask]
  simp only [Size.sign_eq_signed]
  by_cases hb : s.signed b < 0 <;> by_cases hr : s.signed r < 0 <;> simp [hb, hr]

end Signs

/-- Carry and overflow of a result that is exact but for its range. -/
theorem carryOverflow_eq (op : AluOp) (s : Size) {r a b : UInt32} {x : Bool}
    (hr : (s.unsigned r : Int) =
      op.exact (s.unsigned a) (s.unsigned b) x.toNat % (2 ^ s.bits : Nat)) :
    carryOverflow op r a b s =
      (decide (¬ FitsUnsigned s.bits (op.exact (s.unsigned a) (s.unsigned b) x.toNat)),
        decide (¬ FitsSigned s.bits (op.exact (s.signed a) (s.signed b) x.toNat))) := by
  -- The carry-in is not among the sign bits, but with it the exact result is still in reach of the
  -- range by one step, so the signs of the operands and of the result tell which step.
  have hx : x.toNat ≤ 1 := x.toNat_le
  have ha := s.unsigned_lt a
  have hb := s.unsigned_lt b
  have hlt := s.unsigned_lt r
  have hexact := eq_or_of_emod hr (by cases op <;> simp only [AluOp.exact] <;> omega)
    (by cases op <;> simp only [AluOp.exact] <;> omega)
  unfold FitsUnsigned FitsSigned
  have hsa := s.signed_cases a
  have hsb := s.signed_cases b
  have hsr := s.signed_cases r
  have hrange := s.two_pow_bits
  cases op with
  | add =>
    rw [carryOverflow_add, Prod.mk.injEq, decide_eq_decide, decide_eq_decide]
    simp only [AluOp.exact] at hexact ⊢
    omega
  | sub | cmp =>
    refine (carryOverflow_sub r a b s).trans ?_
    rw [Prod.mk.injEq, decide_eq_decide, decide_eq_decide]
    simp only [AluOp.exact] at hexact ⊢
    omega
  | neg =>
    rw [carryOverflow_neg, Prod.mk.injEq, decide_eq_decide, decide_eq_decide]
    simp only [AluOp.exact] at hexact ⊢
    omega

/-- Carry and overflow at every size, for any longs and with or without a carry-in. -/
theorem carryOverflow_result (op : AluOp) (s : Size) (a b : UInt32) (x : Bool) :
    carryOverflow op (op.result a b x) a b s =
      (decide (¬ FitsUnsigned s.bits (op.exact (s.unsigned a) (s.unsigned b) x.toNat)),
        decide (¬ FitsSigned s.bits (op.exact (s.signed a) (s.signed b) x.toNat))) :=
  carryOverflow_eq op s (op.unsigned_result s a b x)

-- The carry-in alone takes 0x7F out of range; the byte above it does not count.
example : carryOverflow .add (AluOp.add.result 0xFF7F 0 true) 0xFF7F 0 .byte = (false, true) := by
  decide

end ColdFire
