import ColdFire.Proofs.Word.Number
import Mathlib.Data.Nat.Digits.Defs

namespace ColdFire

namespace Limbs

def value (vs : List UInt32) : Nat := Nat.ofDigits (2 ^ 32) (vs.map UInt32.toNat)

def bits (vs : List UInt32) : Nat := 32 * vs.length

def signed (vs : List UInt32) : Int := Int.bmod (value vs) (2 ^ bits vs)

variable {v : UInt32} {vs : List UInt32}

@[simp] theorem value_nil : value [] = 0 := rfl

@[simp] theorem value_cons (v : UInt32) (vs : List UInt32) :
    value (v :: vs) = v.toNat + 2 ^ 32 * value vs := by
  rw [value, List.map_cons, Nat.ofDigits_cons]
  rfl

theorem value_lt (vs : List UInt32) : value vs < 2 ^ bits vs := by
  have hlt := Nat.ofDigits_lt_base_pow_length (b := 2 ^ 32) (l := vs.map UInt32.toNat)
    (by decide) fun x hx => by
      obtain ⟨v, -, rfl⟩ := List.mem_map.1 hx
      exact v.toNat_lt
  rwa [List.length_map, ← Nat.pow_mul] at hlt

theorem value_eq_zero : value vs = 0 ↔ ∀ v ∈ vs, v = 0 := by
  induction vs with
  | nil => simp
  | cons v vs ih =>
    rw [value_cons, List.forall_mem_cons, ← ih, ← UInt32.toNat_inj, UInt32.toNat_zero]
    omega

theorem two_pow_bits_cons (v : UInt32) (vs : List UInt32) :
    2 ^ bits (v :: vs) = 2 ^ 32 * 2 ^ bits vs := by
  rw [← Nat.pow_add, bits, bits, List.length_cons, Nat.mul_succ, Nat.add_comm]

theorem two_pow_bits (hvs : vs ≠ []) : 2 ^ bits vs = 2 * 2 ^ (bits vs - 1) := by
  have hlen := List.length_pos_iff.2 hvs
  rw [← Nat.pow_succ', Nat.succ_eq_add_one, Nat.sub_add_cancel]
  unfold bits
  omega

theorem two_pow_bits_pred_cons (v : UInt32) (hvs : vs ≠ []) :
    2 ^ (bits (v :: vs) - 1) = 2 ^ 32 * 2 ^ (bits vs - 1) := by
  have hcons := two_pow_bits_cons v vs
  rw [two_pow_bits hvs, two_pow_bits (List.cons_ne_nil v vs)] at hcons
  omega

theorem signed_cases (hvs : vs ≠ []) :
    value vs < 2 ^ (bits vs - 1) ∧ signed vs = value vs ∨
      2 ^ (bits vs - 1) ≤ value vs ∧ signed vs = value vs - (2 ^ bits vs : Nat) := by
  have hlt := value_lt vs
  rw [signed]
  rw [two_pow_bits hvs] at hlt ⊢
  exact bmod_cases hlt

@[simp] theorem signed_singleton (v : UInt32) : signed [v] = Size.long.signed v := by
  rw [signed, value_cons, value_nil]
  rfl

/-- The sign is that of the longs above. -/
theorem signed_cons (v : UInt32) (hvs : vs ≠ []) :
    signed (v :: vs) = v.toNat + 2 ^ 32 * signed vs := by
  have hv := v.toNat_lt
  have hcons := signed_cases (List.cons_ne_nil v vs)
  rw [two_pow_bits_pred_cons v hvs, two_pow_bits_cons, value_cons] at hcons
  have hrest := signed_cases hvs
  omega

theorem fitsSigned_cons (v : UInt32) (hvs : vs ≠ []) (w : UInt32) (e : Int) :
    FitsSigned (bits (v :: vs)) (w.toNat + 2 ^ 32 * e) ↔ FitsSigned (bits vs) e := by
  have hw := w.toNat_lt
  unfold FitsSigned
  rw [two_pow_bits_pred_cons v hvs]
  omega

theorem testBit_value_cons (v : UInt32) (hvs : vs ≠ []) :
    (value (v :: vs)).testBit (bits (v :: vs) - 1) = (value vs).testBit (bits vs - 1) := by
  have hlen := List.length_pos_iff.2 hvs
  have hbit : bits (v :: vs) - 1 - 32 = bits vs - 1 := by
    unfold bits
    rw [List.length_cons]
    omega
  have habove : ¬ bits (v :: vs) - 1 < 32 := by
    unfold bits
    rw [List.length_cons]
    omega
  rw [value_cons, Nat.add_comm, Nat.testBit_two_pow_mul_add _ v.toNat_lt, if_neg habove, hbit]

end Limbs

end ColdFire
