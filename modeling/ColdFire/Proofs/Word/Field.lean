import ColdFire.Word.Stencil
import Mathlib.Data.Nat.Bitwise

namespace ColdFire

def bitAt (w : UInt16) (i : Nat) : Bool := w.toBitVec.getLsbD i

theorem eq_of_bitAt_eq {v w : UInt16} (h : ∀ i < 16, bitAt v i = bitAt w i) : v = w := by
  apply UInt16.eq_of_toBitVec_eq
  apply BitVec.eq_of_getLsbD_eq
  intro i hi
  exact h i hi

@[simp] theorem bitAt_and (v w : UInt16) (i : Nat) :
    bitAt (v &&& w) i = (bitAt v i && bitAt w i) := by
  simp [bitAt]

@[simp] theorem bitAt_or (v w : UInt16) (i : Nat) :
    bitAt (v ||| w) i = (bitAt v i || bitAt w i) := by
  simp [bitAt]

@[simp] theorem bitAt_xor (v w : UInt16) (i : Nat) :
    bitAt (v ^^^ w) i = (bitAt v i ^^ bitAt w i) := by
  simp [bitAt]

@[simp] theorem bitAt_not (w : UInt16) (i : Nat) :
    bitAt (~~~w) i = (decide (i < 16) && !bitAt w i) := by
  simp [bitAt]

theorem bitAt_eq_testBit (w : UInt16) (i : Nat) : bitAt w i = w.toNat.testBit i := rfl

theorem bitAt_eq_false_of_lt {v : UInt16} {n i : Nat} (hv : v.toNat < 2 ^ n) (hi : n ≤ i) :
    bitAt v i = false := by
  rw [bitAt_eq_testBit]
  exact Nat.testBit_lt_two_pow (hv.trans_le (Nat.pow_le_pow_right (by decide) hi))

theorem bitAt_shiftLeft (w : UInt16) {s : Nat} (hs : s < 16) (i : Nat) :
    bitAt (w <<< UInt16.ofNat s) i = (decide (i < 16) && !decide (i < s) && bitAt w (i - s)) := by
  simp [bitAt, Nat.mod_eq_of_lt (show s < 65536 by omega), Nat.mod_eq_of_lt hs]

theorem bitAt_shiftRight (w : UInt16) {s : Nat} (hs : s < 16) (i : Nat) :
    bitAt (w >>> UInt16.ofNat s) i = bitAt w (s + i) := by
  simp [bitAt, Nat.mod_eq_of_lt (show s < 65536 by omega), Nat.mod_eq_of_lt hs]

theorem and_bit (w : UInt16) {i : Nat} (hi : i < 16) :
    w &&& UInt16.ofNat (2 ^ i) = 0 ∨ w &&& UInt16.ofNat (2 ^ i) = UInt16.ofNat (2 ^ i) := by
  have hlt : 2 ^ i < 65536 := Nat.pow_lt_pow_right (by decide) hi
  rw [← UInt16.toNat_inj, ← UInt16.toNat_inj, UInt16.toNat_and, UInt16.toNat_ofNat',
    Nat.mod_eq_of_lt hlt, Nat.and_two_pow]
  cases w.toNat.testBit i with
  | false => left; simp
  | true => right; simp

namespace Field

def InWord (f : Field) : Prop := f.shift < 16 ∧ f.shift + f.width ≤ 16

instance (f : Field) : Decidable f.InWord := inferInstanceAs (Decidable (_ ∧ _))

def Disjoint (f g : Field) : Prop := f.shift + f.width ≤ g.shift ∨ g.shift + g.width ≤ f.shift

instance (f g : Field) : Decidable (f.Disjoint g) := inferInstanceAs (Decidable (_ ∨ _))

def Covers (f : Field) (i : Nat) : Prop := f.shift ≤ i ∧ i < f.shift + f.width

instance (f : Field) (i : Nat) : Decidable (f.Covers i) := inferInstanceAs (Decidable (_ ∧ _))

variable {f g : Field}

theorem limit_eq (f : Field) : f.limit = 2 ^ f.width - 1 := by
  rw [limit, Nat.one_shiftLeft]

theorem toNat_limit (h : f.InWord) : (UInt16.ofNat f.limit).toNat = 2 ^ f.width - 1 := by
  have hw : f.width ≤ 16 := by have := h.2; omega
  have hlt : 2 ^ f.width - 1 < 65536 := by
    have := Nat.pow_le_pow_right (show 0 < 2 by decide) hw
    omega
  rw [limit_eq, UInt16.toNat_ofNat', Nat.mod_eq_of_lt hlt]

/-- Bits beyond the width of a field are dropped. -/
theorem toNat_and_limit (h : f.InWord) (v : UInt16) :
    (v &&& UInt16.ofNat f.limit).toNat = v.toNat % 2 ^ f.width := by
  rw [UInt16.toNat_and, toNat_limit h, Nat.and_two_pow_sub_one_eq_mod]

theorem bitAt_limit (h : f.InWord) (i : Nat) :
    bitAt (UInt16.ofNat f.limit) i = decide (i < f.width) := by
  rw [bitAt_eq_testBit, toNat_limit h]
  exact Nat.testBit_two_pow_sub_one _ _

theorem bitAt_mask (h : f.InWord) (i : Nat) :
    bitAt f.mask i = (decide (f.shift ≤ i) && decide (i < f.shift + f.width)) := by
  have hw := h.2
  rw [mask, bitAt_shiftLeft _ h.1, bitAt_limit h]
  rw [Bool.eq_iff_iff]
  simp only [Bool.and_eq_true, Bool.not_eq_true', decide_eq_true_eq, decide_eq_false_iff_not]
  omega

theorem bitAt_get (h : f.InWord) (w : UInt16) (i : Nat) :
    bitAt (f.get w) i = (bitAt w (f.shift + i) && decide (i < f.width)) := by
  rw [get, bitAt_and, bitAt_shiftRight _ h.1, bitAt_limit h]

theorem bitAt_set (h : f.InWord) (w v : UInt16) {i : Nat} (hi : i < 16) :
    bitAt (f.set w v) i = if f.Covers i then bitAt v (i - f.shift) else bitAt w i := by
  simp only [set, bitAt_or, bitAt_and, bitAt_not, bitAt_mask h, bitAt_shiftLeft _ h.1, hi]
  by_cases hin : f.Covers i
  · have hge : ¬ i < f.shift := Nat.not_lt.mpr hin.1
    simp [hin, hin.1, hin.2, hge]
  · rw [if_neg hin]
    rw [Covers, not_and_or] at hin
    rcases hin with hlo | hhi
    · simp [hlo]
    · simp [hhi]

theorem bitAt_eq_of_get_eq (h : f.InWord) {v w : UInt16} (hget : f.get v = f.get w) {i : Nat}
    (hi : f.Covers i) : bitAt v i = bitAt w i := by
  have hlt : i - f.shift < f.width := Nat.sub_lt_left_of_lt_add hi.1 hi.2
  have hb : bitAt (f.get v) (i - f.shift) = bitAt (f.get w) (i - f.shift) := by rw [hget]
  rwa [bitAt_get h, bitAt_get h, decide_eq_true hlt, Bool.and_true, Bool.and_true,
    Nat.add_sub_cancel' hi.1] at hb

theorem toNat_get_lt (h : f.InWord) (w : UInt16) : (f.get w).toNat < 2 ^ f.width := by
  rw [get, toNat_and_limit h]
  exact Nat.mod_lt _ (Nat.two_pow_pos f.width)

theorem get_set (h : f.InWord) (w v : UInt16) :
    f.get (f.set w v) = v &&& UInt16.ofNat f.limit := by
  apply eq_of_bitAt_eq
  intro i hi
  rw [bitAt_get h, bitAt_and, bitAt_limit h]
  by_cases hlt : i < f.width
  · have hpos : f.shift + i < 16 := by have := h.2; omega
    rw [bitAt_set h w v hpos, if_pos ⟨by omega, by omega⟩, Nat.add_sub_cancel_left]
  · simp [hlt]

theorem and_limit_of_lt (h : f.InWord) {v : UInt16} (hv : v.toNat < 2 ^ f.width) :
    v &&& UInt16.ofNat f.limit = v := by
  rw [← UInt16.toNat_inj, toNat_and_limit h, Nat.mod_eq_of_lt hv]

theorem get_set_of_lt (h : f.InWord) (w : UInt16) {v : UInt16} (hv : v.toNat < 2 ^ f.width) :
    f.get (f.set w v) = v := by
  rw [get_set h, and_limit_of_lt h hv]

theorem get_set_of_disjoint (hf : f.InWord) (hg : g.InWord) (hd : f.Disjoint g) (w v : UInt16) :
    g.get (f.set w v) = g.get w := by
  apply eq_of_bitAt_eq
  intro i hi
  rw [bitAt_get hg, bitAt_get hg]
  by_cases hlt : i < g.width
  · have hpos : g.shift + i < 16 := by have := hg.2; omega
    have hout : ¬ f.Covers (g.shift + i) := by
      unfold Disjoint at hd
      unfold Covers
      omega
    rw [bitAt_set hf w v hpos, if_neg hout]
  · simp [hlt]

theorem set_and_of_disjoint (h : f.InWord) {m : UInt16} (hm : f.mask &&& m = 0) (w v : UInt16) :
    f.set w v &&& m = w &&& m := by
  apply eq_of_bitAt_eq
  intro i hi
  have hb : bitAt (f.mask &&& m) i = false := by rw [hm]; simp [bitAt]
  rw [bitAt_and, bitAt_mask h] at hb
  rw [bitAt_and, bitAt_and, bitAt_set h w v hi]
  split
  · rename_i hin
    simp only [hin.1, hin.2, decide_true, Bool.true_and] at hb
    simp [hb]
  · rfl

theorem get_congr (h : f.InWord) {v w : UInt16} (hvw : v &&& f.mask = w &&& f.mask) :
    f.get v = f.get w := by
  apply eq_of_bitAt_eq
  intro i hi
  rw [bitAt_get h, bitAt_get h]
  by_cases hlt : i < f.width
  · have hb : bitAt (v &&& f.mask) (f.shift + i) = bitAt (w &&& f.mask) (f.shift + i) := by
      rw [hvw]
    rw [bitAt_and, bitAt_and, bitAt_mask h, decide_eq_true (by omega),
      decide_eq_true (by omega), Bool.and_self, Bool.and_true, Bool.and_true] at hb
    rw [hb]
  · simp [hlt]

theorem get_of_and_eq (h : f.InWord) {m v w : UInt16} (hw : w &&& m = v)
    (hm : m &&& f.mask = f.mask) : f.get w = f.get v := by
  apply get_congr h
  rw [← hw, UInt16.and_assoc, hm]

theorem set_zero (h : f.InWord) {w : UInt16} (hw : w &&& f.mask = 0) : f.set w 0 = w := by
  apply eq_of_bitAt_eq
  intro i hi
  rw [bitAt_set h _ _ hi]
  split
  · rename_i hin
    have hb : bitAt (w &&& f.mask) i = false := by rw [hw]; simp [bitAt]
    rw [bitAt_and, bitAt_mask h, decide_eq_true hin.1, decide_eq_true hin.2, Bool.and_self,
      Bool.and_true] at hb
    rw [hb]
    simp [bitAt]
  · rfl

end Field

/-- Two words have the same bits where `m` has ones. -/
def AgreeOn (m v w : UInt16) : Prop := v &&& m = w &&& m

namespace AgreeOn

variable {m v w : UInt16}

theorem eq_of_all (h : AgreeOn 0xFFFF v w) : v = w := by
  have hv (x : UInt16) : x &&& 0xFFFF = x := by
    apply eq_of_bitAt_eq
    intro i hi
    have hone : bitAt 0xFFFF i = true := by
      rw [bitAt_eq_testBit]
      exact (Nat.testBit_two_pow_sub_one 16 i).trans (by simpa using hi)
    rw [bitAt_and, hone, Bool.and_true]
  rw [← hv v, ← hv w]
  exact h

theorem zero_of_and (h : w &&& m = 0) : AgreeOn m 0 w := by
  rw [AgreeOn, h, UInt16.zero_and]

theorem nothing (v w : UInt16) : AgreeOn 0 v w := by
  rw [AgreeOn, UInt16.and_zero, UInt16.and_zero]

theorem or {n : UInt16} (hm : AgreeOn m v w) (hn : AgreeOn n v w) : AgreeOn (m ||| n) v w := by
  have hdistrib (x : UInt16) : x &&& (m ||| n) = (x &&& m) ||| (x &&& n) := by
    apply eq_of_bitAt_eq
    intro i hi
    simp only [bitAt_and, bitAt_or, Bool.and_or_distrib_left]
  unfold AgreeOn at hm hn ⊢
  rw [hdistrib, hdistrib, hm, hn]

theorem or_and {k : UInt16} (h : AgreeOn m v w) (hk : v &&& k = 0) :
    AgreeOn (m ||| k) (v ||| (w &&& k)) w := by
  apply eq_of_bitAt_eq
  intro i hi
  have hm : (bitAt v i && bitAt m i) = (bitAt w i && bitAt m i) := by
    rw [← bitAt_and, ← bitAt_and]
    exact congrArg (bitAt · i) h
  have hroom : (bitAt v i && bitAt k i) = false := by
    rw [← bitAt_and, hk]
    simp [bitAt]
  rw [bitAt_and, bitAt_and, bitAt_or, bitAt_or, bitAt_and]
  cases hkey : bitAt k i with
  | true =>
    rw [hkey, Bool.and_true] at hroom
    simp [hroom]
  | false => simpa using hm

theorem set_get {f : Field} (h : AgreeOn m v w) (hf : f.InWord) :
    AgreeOn (m ||| f.mask) (f.set v (f.get w)) w := by
  apply eq_of_bitAt_eq
  intro i hi
  have hb : (bitAt v i && bitAt m i) = (bitAt w i && bitAt m i) := by
    rw [← bitAt_and, ← bitAt_and]
    exact congrArg (bitAt · i) h
  rw [bitAt_and, bitAt_and, bitAt_or, Field.bitAt_mask hf, Field.bitAt_set hf _ _ hi]
  by_cases hin : f.Covers i
  · have hlt : i - f.shift < f.width := Nat.sub_lt_left_of_lt_add hin.1 hin.2
    rw [if_pos hin, Field.bitAt_get hf, Nat.add_sub_cancel' hin.1]
    simp [hlt]
  · rw [if_neg hin]
    have hout : (decide (f.shift ≤ i) && decide (i < f.shift + f.width)) = false := by
      rw [← Bool.not_eq_true, Bool.and_eq_true, decide_eq_true_eq, decide_eq_true_eq]
      exact hin
    rw [hout, Bool.or_false]
    exact hb

end AgreeOn

theorem Field.and_mask {f : Field} (h : f.InWord) (w : UInt16) :
    w &&& f.mask = f.set 0 (f.get w) &&& f.mask := by
  have hagree := (AgreeOn.nothing 0 w).set_get h
  rw [UInt16.zero_or] at hagree
  exact hagree.symm

end ColdFire
