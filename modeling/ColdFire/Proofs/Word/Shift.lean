import ColdFire.Proofs.Word.Division

namespace ColdFire

theorem FitsSigned.ediv {bits : Nat} {v : Int} {n : Nat} (h : FitsSigned bits v) (hn : 0 < n) :
    FitsSigned bits (v / n) := by
  obtain ⟨hlo, hhi⟩ := h
  have hgrow : ((2 ^ (bits - 1) : Nat) : Int) * 1 ≤ (2 ^ (bits - 1) : Nat) * n :=
    Int.mul_le_mul_of_nonneg_left (by omega) (Int.natCast_nonneg _)
  constructor
  · refine Int.le_ediv_of_mul_le (by omega) ?_
    rw [Int.neg_mul]
    omega
  · exact Int.ediv_lt_of_lt_mul (by omega) (by omega)

namespace Size

theorem signed_long_inj {v w : UInt32} (h : long.signed v = long.signed w) : v = w := by
  rw [signed_eq_iff, unsigned_long, unsigned_long] at h
  exact UInt32.toNat_inj.1 h

theorem fitsSigned_signed (s : Size) (v : UInt32) : FitsSigned s.bits (s.signed v) := by
  rw [← number_true, ← fits_true]
  exact s.fits_number true v

end Size

section LowestBit

theorem and_one_bne_zero (v : UInt32) : (v &&& 1 != 0) = decide (v.toNat % 2 = 1) := by
  have hzero : v &&& 1 = 0 ↔ v.toNat % 2 = 0 := by
    rw [← UInt32.toNat_inj, UInt32.toNat_and]
    change v.toNat &&& 1 = 0 ↔ _
    rw [Nat.and_one_is_mod]
  rw [Bool.eq_iff_iff, bne_iff_ne, decide_eq_true_iff, Ne, hzero]
  omega

theorem wide_and_one_bne_zero (v : UInt64) : (v &&& 1 != 0) = decide (v.toNat % 2 = 1) := by
  have hzero : v &&& 1 = 0 ↔ v.toNat % 2 = 0 := by
    rw [← UInt64.toNat_inj, UInt64.toNat_and]
    change v.toNat &&& 1 = 0 ↔ _
    rw [Nat.and_one_is_mod]
  rw [Bool.eq_iff_iff, bne_iff_ne, decide_eq_true_iff, Ne, hzero]
  omega

theorem toInt_eq_bmod (x : Int64) : x.toInt = Int.bmod x.toUInt64.toNat (2 ^ 64) :=
  BitVec.toInt_eq_toNat_bmod _

theorem signed_and_one_bne_zero (x : Int64) : (x &&& 1 != 0) = decide (x.toInt % 2 = 1) := by
  have hunsigned : (x &&& 1 != 0) = (x.toUInt64 &&& 1 != 0) := by
    rw [Bool.eq_iff_iff, bne_iff_ne, bne_iff_ne, Ne, Ne, ← Int64.toBitVec_inj,
      ← UInt64.toBitVec_inj]
    rfl
  have hparity : x.toInt % 2 = ((x.toUInt64.toNat % 2 : Nat) : Int) := by
    rw [toInt_eq_bmod, Int.bmod_def]
    split <;> omega
  rw [hunsigned, wide_and_one_bne_zero, hparity, decide_eq_decide]
  omega

end LowestBit

theorem toInt_shiftRight (x : Int64) {count : UInt64} (h : count.toNat < 64) :
    (x >>> count.toInt64).toInt = x.toInt / (2 ^ count.toNat : Nat) := by
  have hcount : count.toInt64.toBitVec.smod 64 = count.toBitVec := by
    have hnonneg : count.toBitVec.toInt = count.toNat := by
      refine BitVec.toInt_eq_toNat_of_lt ?_
      change 2 * count.toNat < 2 ^ 64
      omega
    rw [← BitVec.toInt_inj, BitVec.toInt_smod]
    change count.toBitVec.toInt.fmod 64 = _
    rw [hnonneg, Int.fmod_eq_emod_of_nonneg _ (by decide)]
    exact Int.emod_eq_of_lt (by omega) (by omega)
  change (x >>> count.toInt64).toBitVec.toInt = _
  rw [Int64.toBitVec_shiftRight, hcount]
  change (x.toBitVec.sshiftRight count.toNat).toInt = _
  rw [BitVec.toInt_sshiftRight, Int.shiftRight_eq_div_pow]
  rfl

theorem Size.signed_toUInt32 {x : Int64} (h : FitsSigned 32 x.toInt) :
    long.signed x.toUInt64.toUInt32 = x.toInt := by
  obtain ⟨hlo, hhi⟩ := h
  have hdvd : 2 ^ 32 ∣ 2 ^ 64 := by decide
  change Int.bmod x.toUInt64.toUInt32.toNat (2 ^ 32) = _
  rw [UInt64.toNat_toUInt32, Int.natCast_emod, Int.emod_bmod, ← Int.bmod_bmod_of_dvd hdvd,
    ← toInt_eq_bmod]
  exact Int.bmod_eq_of_le (by omega) (by omega)

namespace ShiftKind

/-- A shift by one bit: the word after it, and the bit that it loses. An arithmetic shift to the
right keeps the sign. -/
def once (kind : ShiftKind) (v : UInt32) : UInt32 × Bool :=
  match kind with
  | asl | lsl => (v <<< 1, v &&& 0x80000000 != 0)
  | lsr => (v >>> 1, v &&& 1 != 0)
  | asr => ((v >>> 1) ||| (v &&& 0x80000000), v &&& 1 != 0)

/-- Some shifts by one bit: the word after them, and the bit that the last of them loses. -/
def times (kind : ShiftKind) (v : UInt32) : Nat → UInt32 × Bool
  | 0 => (v, false)
  | n + 1 => kind.once (kind.times v n).1

theorem times_times (kind : ShiftKind) (v : UInt32) (m : Nat) {n : Nat} (hn : 1 ≤ n) :
    kind.times (kind.times v m).1 n = kind.times v (m + n) := by
  induction n, hn using Nat.le_induction with
  | base => rfl
  | succ n _ ih => exact congrArg (fun r => kind.once r.1) ih

variable {kind : ShiftKind} {v count : UInt32}

theorem toNat_sub_one (h : 1 ≤ count.toNat) : (count - 1).toNat = count.toNat - 1 :=
  UInt32.toNat_sub_of_le count 1 (UInt32.le_iff_toNat_le.2 h)

section Left

variable (hkind : kind = asl ∨ kind = lsl)

include hkind

theorem once_left : (kind.once v).1.toNat = v.toNat * 2 % 2 ^ 32 ∧
    (kind.once v).2 = decide (2 ^ 31 ≤ v.toNat) := by
  have honce : kind.once v = (v <<< 1, Size.long.sign v) := by
    rcases hkind with rfl | rfl <;> rfl
  rw [honce, Size.sign_eq_decide, Size.unsigned_long, UInt32.toNat_shiftLeft, Nat.shiftLeft_eq]
  exact ⟨rfl, rfl⟩

theorem apply_left (h : count.toNat < 64) :
    (kind.apply v count).1.toNat = v.toNat * 2 ^ count.toNat % 2 ^ 32 ∧
      (kind.apply v count).2 = decide (v.toNat * 2 ^ count.toNat / 2 ^ 32 % 2 = 1) := by
  have happly : kind.apply v count = ((v.toUInt64 <<< count.toUInt64).toUInt32,
      ((v.toUInt64 <<< count.toUInt64) >>> 32) &&& 1 != 0) := by
    rcases hkind with rfl | rfl <;> rfl
  have hwide : (v.toUInt64 <<< count.toUInt64).toNat = v.toNat * 2 ^ count.toNat % 2 ^ 64 := by
    rw [UInt64.toNat_shiftLeft, UInt32.toNat_toUInt64, UInt32.toNat_toUInt64, Nat.mod_eq_of_lt h,
      Nat.shiftLeft_eq]
  rw [happly]
  dsimp only
  rw [wide_and_one_bne_zero, UInt64.toNat_toUInt32, UInt64.toNat_shiftRight, hwide,
    Nat.shiftRight_eq_div_pow]
  change _ ∧ decide (v.toNat * 2 ^ count.toNat % 2 ^ 64 / 2 ^ 32 % 2 = 1) = _
  generalize v.toNat * 2 ^ count.toNat = product
  rw [decide_eq_decide]
  omega

end Left

theorem once_lsr : (lsr.once v).1.toNat = v.toNat / 2 ∧
    (lsr.once v).2 = decide (v.toNat % 2 = 1) := by
  change (v >>> 1).toNat = _ ∧ (v &&& 1 != 0) = _
  rw [and_one_bne_zero, UInt32.toNat_shiftRight]
  exact ⟨Nat.shiftRight_eq_div_pow _ _, rfl⟩

theorem apply_lsr (h : count.toNat < 64) :
    (lsr.apply v count).1.toNat = v.toNat / 2 ^ count.toNat ∧
      (1 ≤ count.toNat →
        (lsr.apply v count).2 = decide (v.toNat / 2 ^ (count.toNat - 1) % 2 = 1)) := by
  have hwide {n : UInt32} (hn : n.toNat < 64) :
      (v.toUInt64 >>> n.toUInt64).toNat = v.toNat / 2 ^ n.toNat := by
    rw [UInt64.toNat_shiftRight, UInt32.toNat_toUInt64, UInt32.toNat_toUInt64,
      Nat.mod_eq_of_lt hn, Nat.shiftRight_eq_div_pow]
  constructor
  · change (v.toUInt64 >>> count.toUInt64).toUInt32.toNat = _
    rw [UInt64.toNat_toUInt32, hwide h]
    exact Nat.mod_eq_of_lt (Nat.lt_of_le_of_lt (Nat.div_le_self _ _) v.toNat_lt)
  · intro hpos
    have hpred := toNat_sub_one hpos
    change ((v.toUInt64 >>> (count - 1).toUInt64) &&& 1 != 0) = _
    rw [wide_and_one_bne_zero, hwide (by omega), hpred]

theorem once_asr : Size.long.signed (asr.once v).1 = Size.long.signed v / 2 ∧
    (asr.once v).2 = decide (Size.long.signed v % 2 = 1) := by
  have hlt := v.toNat_lt
  have hbits : Size.long.bits = 32 := rfl
  have htop : (v &&& 0x80000000).toNat = 2 ^ 31 * (v.toNat / 2 ^ 31) := by
    have hmod : v.toNat / 2 ^ 31 % 2 = v.toNat / 2 ^ 31 := Nat.mod_eq_of_lt (by omega)
    rw [UInt32.toNat_and]
    change v.toNat &&& 2 ^ 31 = _
    rw [Nat.and_two_pow, Nat.toNat_testBit, hmod, Nat.mul_comm]
  have hlow : (v >>> 1).toNat = v.toNat / 2 := once_lsr.1
  -- the sign bit comes back on top of what was shifted down
  have hsum : (asr.once v).1.toNat = 2 ^ 31 * (v.toNat / 2 ^ 31) + v.toNat / 2 := by
    have hhalf : v.toNat / 2 < 2 ^ 31 := by omega
    change ((v >>> 1) ||| (v &&& 0x80000000)).toNat = _
    rw [UInt32.toNat_or, htop, hlow, Nat.or_comm, ← Nat.two_pow_add_eq_or_of_lt hhalf]
  have hcases := Size.long.signed_cases v
  have hcases' := Size.long.signed_cases (asr.once v).1
  have hlost : (asr.once v).2 = decide (v.toNat % 2 = 1) := and_one_bne_zero v
  rw [Size.unsigned_long, hbits] at hcases hcases'
  rw [hsum] at hcases'
  rw [hlost, decide_eq_decide]
  omega

theorem apply_asr (h : count.toNat < 64) :
    Size.long.signed (asr.apply v count).1 = Size.long.signed v / (2 ^ count.toNat : Nat) ∧
      (1 ≤ count.toNat → (asr.apply v count).2 =
        decide (Size.long.signed v / (2 ^ (count.toNat - 1) : Nat) % 2 = 1)) := by
  have hwide {n : UInt32} (hn : n.toNat < 64) :
      (v.toInt32.toInt64 >>> n.toUInt64.toInt64).toInt =
        Size.long.signed v / (2 ^ n.toNat : Nat) := by
    rw [toInt_shiftRight _ (by rwa [UInt32.toNat_toUInt64]), Int32.toInt_toInt64,
      Size.signed_long, UInt32.toNat_toUInt64]
  constructor
  · have hfits := (Size.long.fitsSigned_signed v).ediv (Nat.two_pow_pos count.toNat)
    rw [← hwide h] at hfits
    exact (Size.signed_toUInt32 hfits).trans (hwide h)
  · intro hpos
    have hpred := toNat_sub_one hpos
    change ((v.toInt32.toInt64 >>> (count - 1).toUInt64.toInt64) &&& 1 != 0) = _
    rw [signed_and_one_bne_zero, hwide (by omega), hpred]

theorem apply_zero (kind : ShiftKind) (v : UInt32) : (kind.apply v 0).1 = v := by
  have h : (0 : UInt32).toNat < 64 := by decide
  have hleft (hkind : kind = asl ∨ kind = lsl) : (kind.apply v 0).1 = v := by
    have hvalue := (apply_left (v := v) hkind h).1
    rw [← UInt32.toNat_inj, hvalue, UInt32.toNat_zero, Nat.pow_zero, Nat.mul_one]
    exact Nat.mod_eq_of_lt v.toNat_lt
  cases kind with
  | asl => exact hleft (.inl rfl)
  | lsl => exact hleft (.inr rfl)
  | lsr => exact UInt32.toNat_inj.1 ((apply_lsr (v := v) h).1.trans (Nat.div_one _))
  | asr => exact Size.signed_long_inj ((apply_asr (v := v) h).1.trans (Int.ediv_one _))

theorem once_apply (kind : ShiftKind) (v : UInt32) {m n : UInt32} (hn : n.toNat = m.toNat + 1)
    (h : n.toNat < 64) : kind.once (kind.apply v m).1 = kind.apply v n := by
  have hm : m.toNat < 64 := by omega
  have hpos : 1 ≤ n.toNat := by omega
  have hdouble : 2 ^ n.toNat = 2 ^ m.toNat * 2 := by rw [hn, Nat.pow_succ]
  have hpred : n.toNat - 1 = m.toNat := by omega
  -- every kind multiplies or divides by a power of two, and one more bit doubles that
  have hleft (hkind : kind = asl ∨ kind = lsl) :
      kind.once (kind.apply v m).1 = kind.apply v n := by
    obtain ⟨hm, -⟩ := apply_left (v := v) hkind hm
    obtain ⟨hvalue, hlost⟩ := apply_left (v := v) hkind h
    obtain ⟨honce, honce'⟩ := once_left (v := (kind.apply v m).1) hkind
    rw [hdouble, ← Nat.mul_assoc] at hvalue hlost
    refine Prod.ext (UInt32.toNat_inj.1 ?_) ?_
    · rw [honce, hm, hvalue]
      omega
    · rw [honce', hm, hlost, decide_eq_decide]
      omega
  cases kind with
  | asl => exact hleft (.inl rfl)
  | lsl => exact hleft (.inr rfl)
  | lsr =>
    obtain ⟨hm, -⟩ := apply_lsr (v := v) hm
    obtain ⟨hvalue, hlost⟩ := apply_lsr (v := v) h
    obtain ⟨honce, honce'⟩ := once_lsr (v := (lsr.apply v m).1)
    refine Prod.ext (UInt32.toNat_inj.1 ?_) ?_
    · rw [honce, hm, hvalue, hdouble, Nat.div_div_eq_div_mul]
    · rw [honce', hm, hlost hpos, hpred]
  | asr =>
    obtain ⟨hm, -⟩ := apply_asr (v := v) hm
    obtain ⟨hvalue, hlost⟩ := apply_asr (v := v) h
    obtain ⟨honce, honce'⟩ := once_asr (v := (asr.apply v m).1)
    refine Prod.ext (Size.signed_long_inj ?_) ?_
    · rw [honce, hm, hvalue, hdouble, Int.natCast_mul,
        Int.ediv_ediv_of_nonneg (Int.natCast_nonneg _)]
      rfl
    · rw [honce', hm, hlost hpos, hpred]

/-- A shift by a count is as many shifts by one bit. -/
theorem apply_eq_times (kind : ShiftKind) (v : UInt32) (hpos : 1 ≤ count.toNat)
    (h : count.toNat < 64) : kind.apply v count = kind.times v count.toNat := by
  have hcount (n : Nat) (hn : n < 64) : (UInt32.ofNat n).toNat = n :=
    UInt32.toNat_ofNat_of_lt' (Nat.lt_trans hn (by decide))
  -- on the count, for the word alone: without a shift there is no bit that was lost
  have hword (n : Nat) (hn : n < 64) : (kind.apply v (UInt32.ofNat n)).1 = (kind.times v n).1 := by
    induction n with
    | zero => exact kind.apply_zero v
    | succ n ih =>
      have hstep : (UInt32.ofNat (n + 1)).toNat = (UInt32.ofNat n).toNat + 1 := by
        rw [hcount _ hn, hcount _ (by omega)]
      rw [times, ← ih (by omega), once_apply kind v hstep (by rwa [hcount _ hn])]
  obtain ⟨n, hn⟩ : ∃ n, count.toNat = n + 1 := ⟨count.toNat - 1, by omega⟩
  have hlast : count.toNat = (UInt32.ofNat n).toNat + 1 := by rw [hcount n (by omega), hn]
  rw [← once_apply kind v hlast h, hword n (by omega), hn, times]

/-- Two shifts are one by the sum of their counts. -/
theorem apply_apply (kind : ShiftKind) (v : UInt32) {m n : UInt32} (hm : 1 ≤ m.toNat)
    (hn : 1 ≤ n.toNat) (h : m.toNat + n.toNat < 64) :
    kind.apply (kind.apply v m).1 n = kind.apply v (m + n) := by
  have hsum : (m + n).toNat = m.toNat + n.toNat := by
    rw [UInt32.toNat_add]
    exact Nat.mod_eq_of_lt (by omega)
  rw [apply_eq_times kind v hm (by omega), apply_eq_times kind _ hn (by omega),
    apply_eq_times kind v (by omega) (by omega), hsum, times_times kind v _ hn]

end ShiftKind

end ColdFire
