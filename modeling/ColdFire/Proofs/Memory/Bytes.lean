import ColdFire.Memory.Bus
import Mathlib.Algebra.Group.Nat.Defs
import Mathlib.Data.List.Basic

namespace ColdFire

namespace Bus

theorem length_bytes (size : Size) (v : UInt32) : (bytes size v).length = size.bytes := by
  cases size <;> rfl

theorem toNat_shift_or {v : UInt32} {n : Nat} (b : UInt8) (hv : v.toNat = n) (hn : n < 2 ^ 24) :
    ((v <<< 8) ||| b.toUInt32).toNat = n * 256 + b.toNat := by
  have hb : b.toNat < 2 ^ 8 := b.toNat_lt
  have hshift : (v <<< 8).toNat = n <<< 8 := by
    rw [UInt32.toNat_shiftLeft, hv]
    change n <<< 8 % 2 ^ 32 = n <<< 8
    rw [Nat.shiftLeft_eq]
    omega
  rw [UInt32.toNat_or, UInt8.toNat_toUInt32, hshift, ← Nat.shiftLeft_add_eq_or_of_lt hb,
    Nat.shiftLeft_eq]

section Value

variable (a b c d : UInt8)

theorem toNat_value_one : (value [a]).toNat = a.toNat := by
  have h := toNat_shift_or a (v := 0) (n := 0) rfl (by decide)
  rw [Nat.zero_mul, Nat.zero_add] at h
  exact h

theorem toNat_value_two : (value [a, b]).toNat = a.toNat * 256 + b.toNat := by
  have ha := a.toNat_lt
  exact toNat_shift_or b (toNat_value_one a) (by omega)

theorem toNat_value_three :
    (value [a, b, c]).toNat = (a.toNat * 256 + b.toNat) * 256 + c.toNat := by
  have ha := a.toNat_lt
  have hb := b.toNat_lt
  exact toNat_shift_or c (toNat_value_two a b) (by omega)

theorem toNat_value_four : (value [a, b, c, d]).toNat =
    ((a.toNat * 256 + b.toNat) * 256 + c.toNat) * 256 + d.toNat := by
  have ha := a.toNat_lt
  have hb := b.toNat_lt
  have hc := c.toNat_lt
  exact toNat_shift_or d (toNat_value_three a b c) (by omega)

end Value

theorem toNat_shift_byte (v : UInt32) (k : Nat) (hk : k < 4) :
    (v >>> UInt32.ofNat (8 * k)).toUInt8.toNat = v.toNat / 256 ^ k % 256 := by
  have hshift : (UInt32.ofNat (8 * k)).toNat % 32 = 8 * k := by
    rw [UInt32.toNat_ofNat']
    omega
  have hpow : 2 ^ (8 * k) = 256 ^ k := Nat.pow_mul 2 8 k
  rw [UInt32.toNat_toUInt8, UInt32.toNat_shiftRight, hshift, Nat.shiftRight_eq_div_pow, hpow]

theorem bytes_value {size : Size} {bs : List UInt8} (h : bs.length = size.bytes) :
    bytes size (value bs) = bs := by
  cases size with
  | byte =>
    obtain ⟨a, rfl⟩ := List.length_eq_one_iff.mp h
    have ha := a.toNat_lt
    simp only [bytes, List.cons.injEq, ← UInt8.toNat_inj, UInt32.toNat_toUInt8, toNat_value_one]
    refine ⟨?_, trivial⟩
    omega
  | word =>
    obtain ⟨a, b, rfl⟩ := List.length_eq_two.mp h
    have ha := a.toNat_lt
    have hb := b.toNat_lt
    have hhigh : (value [a, b] >>> 8).toUInt8.toNat = _ := toNat_shift_byte _ 1 (by decide)
    simp only [bytes, List.cons.injEq, ← UInt8.toNat_inj, hhigh, UInt32.toNat_toUInt8,
      toNat_value_two]
    refine ⟨?_, ?_, trivial⟩
    · omega
    · omega
  | long =>
    obtain ⟨a, b, c, d, rfl⟩ := List.length_eq_four.mp h
    have ha := a.toNat_lt
    have hb := b.toNat_lt
    have hc := c.toNat_lt
    have hd := d.toNat_lt
    have h3 : (value [a, b, c, d] >>> 24).toUInt8.toNat = _ := toNat_shift_byte _ 3 (by decide)
    have h2 : (value [a, b, c, d] >>> 16).toUInt8.toNat = _ := toNat_shift_byte _ 2 (by decide)
    have h1 : (value [a, b, c, d] >>> 8).toUInt8.toNat = _ := toNat_shift_byte _ 1 (by decide)
    simp only [bytes, List.cons.injEq, ← UInt8.toNat_inj, h3, h2, h1, UInt32.toNat_toUInt8,
      toNat_value_four]
    refine ⟨?_, ?_, ?_, ?_, trivial⟩
    · omega
    · omega
    · omega
    · omega

theorem value_lt {size : Size} {bs : List UInt8} (h : bs.length = size.bytes) :
    (value bs).toNat < 2 ^ size.bits := by
  cases size with
  | byte =>
    obtain ⟨a, rfl⟩ := List.length_eq_one_iff.mp h
    rw [toNat_value_one]
    exact a.toNat_lt
  | word =>
    obtain ⟨a, b, rfl⟩ := List.length_eq_two.mp h
    have ha := a.toNat_lt
    have hb := b.toNat_lt
    change _ < 2 ^ 16
    rw [toNat_value_two]
    omega
  | long => exact (value bs).toNat_lt

theorem value_bytes_long (v : UInt32) : value (bytes .long v) = v := by
  have h3 : (v >>> 24).toUInt8.toNat = _ := toNat_shift_byte v 3 (by decide)
  have h2 : (v >>> 16).toUInt8.toNat = _ := toNat_shift_byte v 2 (by decide)
  have h1 : (v >>> 8).toUInt8.toNat = _ := toNat_shift_byte v 1 (by decide)
  have hv := v.toNat_lt
  rw [← UInt32.toNat_inj, bytes, toNat_value_four, h3, h2, h1, UInt32.toNat_toUInt8]
  omega

end Bus

end ColdFire
