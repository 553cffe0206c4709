import ColdFire.Proofs.Cpu.CarryOverflow
import ColdFire.Proofs.Cpu.FlagBits

namespace ColdFire

namespace Size

variable {s : Size} {a b : UInt32}

theorem unsigned_sub (s : Size) (a b : UInt32) :
    (s.unsigned (a - b) : Int) = (s.unsigned a - s.unsigned b : Int) % (2 ^ s.bits : Nat) := by
  have ha := a.toNat_lt
  have hb := b.toNat_lt
  unfold unsigned
  rw [UInt32.toNat_sub]
  cases s with
  | byte =>
    change (((2 ^ 32 - b.toNat + a.toNat) % 2 ^ 32 % 2 ^ 8 : Nat) : Int) =
      ((a.toNat % 2 ^ 8 : Nat) - (b.toNat % 2 ^ 8 : Nat) : Int) % (2 ^ 8 : Nat)
    omega
  | word =>
    change (((2 ^ 32 - b.toNat + a.toNat) % 2 ^ 32 % 2 ^ 16 : Nat) : Int) =
      ((a.toNat % 2 ^ 16 : Nat) - (b.toNat % 2 ^ 16 : Nat) : Int) % (2 ^ 16 : Nat)
    omega
  | long =>
    change (((2 ^ 32 - b.toNat + a.toNat) % 2 ^ 32 % 2 ^ 32 : Nat) : Int) =
      ((a.toNat % 2 ^ 32 : Nat) - (b.toNat % 2 ^ 32 : Nat) : Int) % (2 ^ 32 : Nat)
    omega

end Size

namespace Condition

def test (name : String) (sr : UInt16) : Bool :=
  holds (UInt16.ofNat (names.toList.idxOf name)) sr

theorem test_name (cond sr : UInt16) : test (name cond) sr = holds cond sr := by
  have hplace : ∀ i : Fin 16, names.toList.idxOf (names.get i) = i.val := by decide
  have hlow (c : UInt16) : (c &&& 0xF).toNat = c.toNat % 16 := by
    rw [UInt16.toNat_and]
    exact Nat.and_two_pow_sub_one_eq_mod c.toNat 4
  have hsame : (UInt16.ofNat (names.toList.idxOf (name cond)) &&& 0xF).toNat =
      (cond &&& 0xF).toNat := by
    rw [name, hplace, hlow, hlow, UInt16.toNat_ofNat']
    change cond.toNat % 16 % 2 ^ 16 % 16 = cond.toNat % 16
    omega
  unfold test holds
  rw [hsame]

/-- The conditions say of a status word how two numbers of a size are ordered. -/
structure Orders (sr : UInt16) (s : Size) (a b : UInt32) : Prop where
  eq : test "eq" sr = decide (s.unsigned a = s.unsigned b)
  ne : test "ne" sr = decide (s.unsigned a ≠ s.unsigned b)
  cs : test "cs" sr = decide (s.unsigned a < s.unsigned b)
  ls : test "ls" sr = decide (s.unsigned a ≤ s.unsigned b)
  hi : test "hi" sr = decide (s.unsigned a > s.unsigned b)
  cc : test "cc" sr = decide (s.unsigned a ≥ s.unsigned b)
  lt : test "lt" sr = decide (s.signed a < s.signed b)
  le : test "le" sr = decide (s.signed a ≤ s.signed b)
  gt : test "gt" sr = decide (s.signed a > s.signed b)
  ge : test "ge" sr = decide (s.signed a ≥ s.signed b)

theorem Orders.congr {sr : UInt16} {s : Size} {a a' b : UInt32} (h : Orders sr s a b)
    (ha : s.unsigned a = s.unsigned a') : Orders sr s a' b := by
  have hsigned : s.signed a = s.signed a' := Size.signed_eq_iff.2 ha
  obtain ⟨heq, hne, hcs, hls, hhi, hcc, hlt, hle, hgt, hge⟩ := h
  rw [ha] at heq hne hcs hls hhi hcc
  rw [hsigned] at hlt hle hgt hge
  exact ⟨heq, hne, hcs, hls, hhi, hcc, hlt, hle, hgt, hge⟩

section Orders

variable {cpu : Cpu} {s : Size} {a b : UInt32}

/-- Zero, borrow, and a sign that is wrong just when the difference overflows decide all
conditions. -/
theorem orders_of_flags (hzero : cpu.flag .zero = decide (s.unsigned a = s.unsigned b))
    (hcarry : cpu.flag .carry = decide (s.unsigned a < s.unsigned b))
    (hsign : (cpu.flag .negative != cpu.flag .overflow) = decide (s.signed a < s.signed b)) :
    Orders cpu.sr s a b := by
  have heq := s.signed_eq_iff (v := a) (w := b)
  have hge : (cpu.flag .negative == cpu.flag .overflow) = decide (¬ s.signed a < s.signed b) := by
    rw [decide_not, ← hsign, bne, Bool.not_not]
  exact {
    eq := hzero
    ne := by
      change (!cpu.flag .zero) = _
      rw [hzero, decide_not]
    cs := hcarry
    ls := by
      change (cpu.flag .carry || cpu.flag .zero) = _
      rw [hcarry, hzero, ← Bool.decide_or, decide_eq_decide]
      omega
    hi := by
      change (!cpu.flag .carry && !cpu.flag .zero) = _
      rw [hcarry, hzero, ← decide_not, ← decide_not, ← Bool.decide_and, decide_eq_decide]
      omega
    cc := by
      change (!cpu.flag .carry) = _
      rw [hcarry, ← decide_not, decide_eq_decide]
      omega
    lt := hsign
    le := by
      change (cpu.flag .zero || cpu.flag .negative != cpu.flag .overflow) = _
      rw [hzero, hsign, ← Bool.decide_or, decide_eq_decide]
      omega
    gt := by
      change (!cpu.flag .zero && cpu.flag .negative == cpu.flag .overflow) = _
      rw [hzero, hge, ← decide_not, ← Bool.decide_and, decide_eq_decide]
      omega
    ge := by
      change (cpu.flag .negative == cpu.flag .overflow) = _
      rw [hge, decide_eq_decide]
      omega }

/-- A comparison leaves a status word that says how its numbers are ordered. -/
theorem orders_setArithFlags (cpu : Cpu) (s : Size) (a b : UInt32) :
    Orders (cpu.setArithFlags (a - b) a b s false .cmp).sr s a b := by
  have hsub := s.unsigned_sub a b
  have hflags := carryOverflow_eq .cmp s (r := a - b) (a := a) (b := b) (x := false)
    (by simpa [AluOp.exact] using hsub)
  have hexact := eq_or_of_emod hsub
  have ha := s.unsigned_lt a
  have hb := s.unsigned_lt b
  have hr := s.unsigned_lt (a - b)
  have hrange := s.two_pow_bits
  have hsa := s.signed_cases a
  have hsb := s.signed_cases b
  have hsr := s.signed_cases (a - b)
  -- the three flags by themselves: zero, then borrow, then the sign corrected by overflow
  apply orders_of_flags
  · rw [Cpu.flag_setArithFlags]
    change decide (s.unsigned (a - b) = 0) = _
    rw [decide_eq_decide]
    omega
  · rw [Cpu.flag_setArithFlags, hflags]
    change decide _ = decide _
    rw [decide_eq_decide, FitsUnsigned]
    simp only [AluOp.exact, Bool.toNat_false]
    omega
  · rw [Cpu.flag_setArithFlags, Cpu.flag_setArithFlags, hflags]
    change (s.sign (a - b) != decide _) = decide _
    rw [Size.sign_eq_signed, Bool.eq_iff_iff, bne_iff_ne, ne_eq, decide_eq_decide,
      decide_eq_true_iff, FitsSigned]
    simp only [AluOp.exact, Bool.toNat_false]
    omega

end Orders

end Condition

end ColdFire
