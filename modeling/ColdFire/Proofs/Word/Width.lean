import ColdFire.Word.Size
import Mathlib.Algebra.Group.Nat.Defs

namespace ColdFire

theorem toUInt16_toUInt8 {x : UInt16} (h : x.toNat < 256) : x.toUInt8.toUInt16 = x := by
  apply UInt16.toNat_inj.mp
  simp only [UInt8.toNat_toUInt16, UInt16.toNat_toUInt8]
  omega

theorem toNat_toUInt16_lt {r : UInt8} (h : r < 8) : r.toUInt16.toNat < 2 ^ 3 := by
  rw [UInt8.toNat_toUInt16]
  exact UInt8.lt_iff_toNat_lt.mp h

theorem eq_zero_or_eq_one {x : UInt16} (h : x.toNat < 2) : x = 0 ∨ x = 1 := by
  rw [← UInt16.toNat_inj, ← UInt16.toNat_inj]
  change x.toNat = 0 ∨ x.toNat = 1
  omega

theorem eq_of_lt_four {x : UInt16} (h : x.toNat < 4) : x = 0 ∨ x = 1 ∨ x = 2 ∨ x = 3 := by
  simp only [← UInt16.toNat_inj]
  change x.toNat = 0 ∨ x.toNat = 1 ∨ x.toNat = 2 ∨ x.toNat = 3
  omega

theorem eq_of_lt_eight {x : UInt16} (h : x.toNat < 8) :
    x = 0 ∨ x = 1 ∨ x = 2 ∨ x = 3 ∨ x = 4 ∨ x = 5 ∨ x = 6 ∨ x = 7 := by
  simp only [← UInt16.toNat_inj]
  change x.toNat = 0 ∨ x.toNat = 1 ∨ x.toNat = 2 ∨ x.toNat = 3 ∨ x.toNat = 4 ∨ x.toNat = 5 ∨
    x.toNat = 6 ∨ x.toNat = 7
  omega

theorem toUInt16_ne_zero {x : UInt16} (h : x.toNat < 2) : (x != 0).toUInt16 = x := by
  rcases eq_zero_or_eq_one h with rfl | rfl <;> rfl

theorem toNat_toUInt16_lt_two (b : Bool) : b.toUInt16.toNat < 2 ^ 1 := by
  cases b <;> decide

theorem toUInt16_bne_zero (b : Bool) : (b.toUInt16 != 0) = b := by
  cases b <;> rfl

theorem and_seven {x : UInt16} (h : x.toNat < 8) : (x &&& 7).toNat = x.toNat := by
  rw [UInt16.toNat_and]
  change x.toNat &&& 2 ^ 3 - 1 = x.toNat
  rw [Nat.and_two_pow_sub_one_eq_mod, Nat.mod_eq_of_lt h]

/-- An offset that does not go past the highest address. -/
theorem toNat_add_ofNat {addr : UInt32} {k : Nat} (h : addr.toNat + k < 2 ^ 32) :
    (addr + UInt32.ofNat k).toNat = addr.toNat + k := by
  rw [UInt32.toNat_add, UInt32.toNat_ofNat']
  omega

theorem add_ofNat_add (addr : UInt32) (k n : Nat) :
    addr + UInt32.ofNat (k + n) = addr + UInt32.ofNat n + UInt32.ofNat k := by
  rw [Nat.add_comm, UInt32.ofNat_add, ← UInt32.add_assoc]

theorem add_ofNat_four (addr : UInt32) (k : Nat) :
    addr + UInt32.ofNat (k + 4) = addr + 4 + UInt32.ofNat k := add_ofNat_add addr k 4

theorem toUInt8_toUInt32 (x : Int32) : x.toUInt32.toUInt8 = x.toInt8.toUInt8 := by
  apply UInt8.eq_of_toBitVec_eq
  simp [BitVec.signExtend_eq_setWidth_of_le]

theorem toUInt16_toUInt32 (x : Int32) : x.toUInt32.toUInt16 = x.toInt16.toUInt16 := by
  apply UInt16.eq_of_toBitVec_eq
  simp [BitVec.signExtend_eq_setWidth_of_le]

theorem toInt32_toInt8 {x : Int32} (hlo : -128 ≤ x.toInt) (hhi : x.toInt ≤ 127) :
    x.toInt8.toInt32 = x := by
  rw [← Int32.toInt_inj, Int8.toInt_toInt32, Int32.toInt_toInt8]
  exact Int.bmod_eq_of_le (by omega) (by omega)

theorem toInt32_toInt16 {x : Int32} (hlo : -0x8000 ≤ x.toInt) (hhi : x.toInt ≤ 0x7FFF) :
    x.toInt16.toInt32 = x := by
  rw [← Int32.toInt_inj, Int16.toInt_toInt32, Int32.toInt_toInt16]
  exact Int.bmod_eq_of_le (by omega) (by omega)

theorem toInt_toInt32_toUInt32 (w : UInt16) : w.toUInt32.toInt32.toInt = w.toNat := by
  have hlt := w.toNat_lt
  change w.toUInt32.toBitVec.toInt = w.toNat
  rw [BitVec.toInt_eq_toNat_of_lt]
  · exact congrArg _ (UInt16.toNat_toUInt32 w)
  · change 2 * w.toUInt32.toNat < 2 ^ 32
    rw [UInt16.toNat_toUInt32]
    omega

namespace Size

theorem toBits_of_ofBits? {x : UInt16} {size : Size} (hx : x.toNat < 4)
    (h : ofBits? x = some size) : size.toBits = x := by
  rcases eq_of_lt_four hx with rfl | rfl | rfl | rfl <;> cases h <;> rfl

theorem ofBits?_toBits (size : Size) : ofBits? size.toBits = some size := by
  cases size <;> rfl

theorem toNat_and_mask (size : Size) (v : UInt32) :
    (v &&& size.mask).toNat = v.toNat % 2 ^ size.bits := by
  rw [UInt32.toNat_and]
  cases size with
  | byte => exact Nat.and_two_pow_sub_one_eq_mod v.toNat 8
  | word => exact Nat.and_two_pow_sub_one_eq_mod v.toNat 16
  | long => exact Nat.and_two_pow_sub_one_eq_mod v.toNat 32

theorem and_mask_byte (v : UInt32) : v &&& byte.mask = v.toUInt8.toUInt16.toUInt32 := by
  rw [← UInt32.toNat_inj, toNat_and_mask]
  rfl

theorem and_mask_word (v : UInt32) : v &&& word.mask = v.toUInt16.toUInt32 := by
  rw [← UInt32.toNat_inj, toNat_and_mask]
  rfl

theorem and_mask_long (v : UInt32) : v &&& long.mask = v := by
  rw [← UInt32.toNat_inj, toNat_and_mask]
  exact Nat.mod_eq_of_lt v.toNat_lt

theorem toInt32_signExtend_byte (v : UInt32) :
    (byte.signExtend v).toInt32 = v.toUInt8.toInt8.toInt32 := by
  simp [signExtend]

theorem toUInt8_signExtend_byte (v : UInt32) : (byte.signExtend v).toUInt8 = v.toUInt8 := by
  rw [signExtend, toUInt8_toUInt32, Int8.toInt8_toInt32, UInt8.toUInt8_toInt8]

theorem signExtend_byte_of_range {v : UInt32} (h : ¬ (v.toInt32 < -128 ∨ 127 < v.toInt32)) :
    byte.signExtend v = v := by
  rw [not_or, Int32.lt_iff_toInt_lt, Int32.lt_iff_toInt_lt] at h
  change ¬ _ < (-128 : Int) ∧ ¬ (127 : Int) < _ at h
  have hlow : v.toUInt8 = v.toInt32.toInt8.toUInt8 := toUInt8_toUInt32 v.toInt32
  rw [signExtend, hlow, Int8.toInt8_toUInt8, toInt32_toInt8 (by omega) (by omega),
    UInt32.toUInt32_toInt32]

theorem signExtend_word_of_range {v : UInt32} (hlo : -0x8000 ≤ v.toInt32.toInt)
    (hhi : v.toInt32.toInt ≤ 0x7FFF) : word.signExtend v = v := by
  have hlow : v.toUInt16 = v.toInt32.toInt16.toUInt16 := toUInt16_toUInt32 v.toInt32
  rw [signExtend, hlow, Int16.toInt16_toUInt16, toInt32_toInt16 hlo hhi, UInt32.toUInt32_toInt32]

theorem signExtend_byte_range (v : UInt32) :
    ¬ ((byte.signExtend v).toInt32 < -128 ∨ 127 < (byte.signExtend v).toInt32) := by
  have hlo := v.toUInt8.toInt8.le_toInt
  have hhi := v.toUInt8.toInt8.toInt_lt
  rw [toInt32_signExtend_byte, Int32.lt_iff_toInt_lt, Int32.lt_iff_toInt_lt, Int8.toInt_toInt32]
  change ¬ (_ < (-128 : Int) ∨ (127 : Int) < _)
  omega

end Size

section Signed

variable {v w : Int} {a : UInt32}

theorem toBitVec_ofInt (v : Int) : (UInt32.ofInt v).toBitVec = BitVec.ofInt 32 v := by
  apply BitVec.eq_of_toNat_eq
  have hnonneg := Int.emod_nonneg v (show (2 ^ 32 : Int) ≠ 0 by decide)
  have hlt := Int.emod_lt_of_pos v (show (0 : Int) < 2 ^ 32 by decide)
  change (v % 2 ^ 32).toNat % 2 ^ 32 = _
  rw [BitVec.toNat_ofInt, Nat.mod_eq_of_lt (by omega)]
  rfl

theorem ofInt_toNat (a : UInt32) : UInt32.ofInt a.toNat = a := by
  apply UInt32.eq_of_toBitVec_eq
  rw [toBitVec_ofInt, BitVec.ofInt_natCast]
  exact congrArg UInt32.toBitVec UInt32.ofNat_toNat

/-- Numbers that differ by a multiple of 2^32 are one address. -/
theorem ofInt_eq_ofInt (h : v % 0x100000000 = w % 0x100000000) :
    UInt32.ofInt v = UInt32.ofInt w := by
  have hsame : v % 2 ^ 32 = w % 2 ^ 32 := h
  unfold UInt32.ofInt
  rw [hsame]

theorem toUInt32_ofInt (v : Int) : (Int32.ofInt v).toUInt32 = UInt32.ofInt v := by
  apply UInt32.eq_of_toBitVec_eq
  rw [toBitVec_ofInt]
  rfl

theorem toUInt32_eq_ofInt (x : Int32) : x.toUInt32 = UInt32.ofInt x.toInt := by
  rw [← toUInt32_ofInt, Int32.ofInt_toInt]

/-- Where a displacement from the word behind the opcode word at `a` leads. -/
theorem add_two_add_ofInt (h : a.toNat + 2 + v = w) : a + 2 + UInt32.ofInt v = UInt32.ofInt w := by
  rw [← h, UInt32.ofInt_add, UInt32.ofInt_add, ofInt_toNat]
  rfl

theorem toUInt32_toUInt64_ofInt (v : Int) : (Int64.ofInt v).toUInt64.toUInt32 = UInt32.ofInt v := by
  rw [← toUInt32_ofInt, ← Int64.toInt32_ofInt]
  apply UInt32.eq_of_toBitVec_eq
  change (BitVec.ofInt 64 v).setWidth 32 = (BitVec.ofInt 64 v).signExtend 32
  rw [BitVec.signExtend_eq_setWidth_of_le _ (by decide)]

/-- A sum that goes beyond 64 bits by little does not come out small. -/
theorem toInt_ofInt_of_small (hlow : -0xC000000000000000 ≤ v) (hhigh : v ≤ 0xC000000000000000)
    (hsmall : -0x100000000 ≤ (Int64.ofInt v).toInt ∧ (Int64.ofInt v).toInt ≤ 0x100000000) :
    (Int64.ofInt v).toInt = v := by
  obtain ⟨k, hk⟩ : ∃ k, (Int64.ofInt v).toInt = v - 0x10000000000000000 * k :=
    ⟨_, Int64.toInt_ofInt.trans (Int.bmod_eq_self_sub_mul_bdiv _ _)⟩
  omega

end Signed

end ColdFire
