import ColdFire.Instruction.Plan

namespace ColdFire

section Outcome

variable {ε α β : Type} {x : Except ε α} {f : α → Except ε β} {a b : α}

theorem except_bind_eq_ok {b : β} : x >>= f = .ok b ↔ ∃ a, x = .ok a ∧ f a = .ok b := by
  cases x with
  | ok a => simp [bind, Except.bind]
  | error e => simp [bind, Except.bind]

theorem except_pure_eq_ok : (pure a : Except ε α) = .ok b ↔ a = b := by
  simp [pure, Except.pure]

theorem except_map_eq_ok {f : α → β} {b : β} :
    x.map f = .ok b ↔ ∃ a, x = .ok a ∧ f a = b := by
  cases x with
  | ok a => simp [Except.map]
  | error e => simp [Except.map]

theorem except_throw_ne_ok {e : ε} : (throw e : Except ε α) ≠ .ok a := by
  simp [throw, throwThe, MonadExceptOf.throw]

theorem except_guard_eq_ok {c : Prop} [Decidable c] {t : ε} {g : PUnit → Except ε α}
    {y : Except ε α} : (if c then throw t >>= g else y) = .ok a ↔ ¬ c ∧ y = .ok a := by
  by_cases hc : c
  · rw [if_pos hc]
    exact ⟨nofun, fun h => absurd hc h.1⟩
  · rw [if_neg hc]
    exact ⟨fun h => ⟨hc, h⟩, And.right⟩

end Outcome

namespace Modes

theorem contains_self (s : Modes) : s.contains s = true := by
  simp [contains]

end Modes

namespace Operands

variable {m which : String} {o : Option Ea} {modes : Modes} {ea : Ea}

theorem require_eq_ok : require m which o modes = .ok ea ↔
    o = some ea ∧ modes.contains ea.modes = true ∧ ea.modes ≠ .none := by
  cases o with
  | none => simp [require]
  | some e =>
    simp only [require, Option.some.injEq]
    split
    · rename_i h
      rw [Bool.and_eq_true, bne_iff_ne] at h
      rw [Except.ok.injEq]
      constructor
      · rintro rfl
        exact ⟨rfl, h⟩
      · rintro ⟨rfl, -⟩
        rfl
    · rename_i h
      rw [Bool.and_eq_true, bne_iff_ne] at h
      constructor
      · exact nofun
      · rintro ⟨rfl, hmodes⟩
        exact absurd hmodes h

theorem forbid_eq_ok {u : Unit} : forbid m which o = .ok u ↔ o = none := by
  cases o with
  | none => simp [forbid]
  | some e => simp [forbid]

theorem require_own_mode (h : ea.modes ≠ .none) :
    require m which (some ea) ea.modes = .ok ea :=
  require_eq_ok.2 ⟨rfl, Modes.contains_self _, h⟩

theorem requireDataReg_eq_ok {r : UInt16} : requireDataReg m which o = .ok r ↔
    ∃ n, o = some (.dataReg n) ∧ n.toUInt16 = r := by
  rw [requireDataReg, except_bind_eq_ok]
  constructor
  · rintro ⟨e, he, hr⟩
    obtain ⟨rfl, -, -⟩ := require_eq_ok.1 he
    split at hr
    · rename_i n
      exact ⟨n, rfl, except_pure_eq_ok.1 hr⟩
    · exact absurd hr except_throw_ne_ok
  · rintro ⟨n, rfl, rfl⟩
    exact ⟨_, require_own_mode (show Modes.dn ≠ .none by decide), rfl⟩

theorem requireAddrReg_eq_ok {r : UInt16} : requireAddrReg m which o = .ok r ↔
    ∃ n, o = some (.addrReg n) ∧ n.toUInt16 = r := by
  rw [requireAddrReg, except_bind_eq_ok]
  constructor
  · rintro ⟨e, he, hr⟩
    obtain ⟨rfl, -, -⟩ := require_eq_ok.1 he
    split at hr
    · rename_i n
      exact ⟨n, rfl, except_pure_eq_ok.1 hr⟩
    · exact absurd hr except_throw_ne_ok
  · rintro ⟨n, rfl, rfl⟩
    exact ⟨_, require_own_mode (show Modes.an ≠ .none by decide), rfl⟩

theorem requireIndirect_eq_ok {r : UInt16} : requireIndirect m which o = .ok r ↔
    ∃ n, o = some (.indirect n) ∧ n.toUInt16 = r := by
  rw [requireIndirect, except_bind_eq_ok]
  constructor
  · rintro ⟨e, he, hr⟩
    obtain ⟨rfl, -, -⟩ := require_eq_ok.1 he
    split at hr
    · rename_i n
      exact ⟨n, rfl, except_pure_eq_ok.1 hr⟩
    · exact absurd hr except_throw_ne_ok
  · rintro ⟨n, rfl, rfl⟩
    exact ⟨_, require_own_mode (show Modes.ind ≠ .none by decide), rfl⟩

theorem requireImmediate_eq_ok {r : UInt32} : requireImmediate m which o = .ok r ↔
    ∃ v, o = some (.immediate v) ∧ v = r := by
  rw [requireImmediate, except_bind_eq_ok]
  constructor
  · rintro ⟨e, he, hr⟩
    obtain ⟨rfl, -, -⟩ := require_eq_ok.1 he
    split at hr
    · rename_i v
      exact ⟨v, rfl, except_pure_eq_ok.1 hr⟩
    · exact absurd hr except_throw_ne_ok
  · rintro ⟨v, rfl, rfl⟩
    exact ⟨_, require_own_mode (show Modes.imm ≠ .none by decide), rfl⟩

theorem requireSpecial_eq_ok {reg : SpecialReg} {missing detail : String} {u : Unit} :
    requireSpecial m which o reg missing detail = .ok u ↔ o = some (.special reg) := by
  cases o with
  | none => simp [requireSpecial]
  | some e => simp [requireSpecial]

theorem requireList_eq_ok {mask : UInt16} :
    requireList m o = .ok mask ↔ o = some (.regList mask) := by
  unfold requireList
  split <;> simp_all

theorem requireControl_eq_ok {code : UInt16} :
    requireControl m o = .ok code ↔ o = some (.special (.control code)) ∧ code ≤ 0xFFF := by
  unfold requireControl requireControl.refuse
  grind

theorem requireCache_eq_ok {c : UInt16} :
    requireCache m o = .ok c ↔
      ∃ n, o = some (.special (.cache n)) ∧ (1 ≤ n ∧ n ≤ 3) ∧ n.toUInt16 = c := by
  unfold requireCache requireCache.refuse
  grind

theorem requirePair_eq_ok {p : UInt16 × UInt16} :
    requirePair m o = .ok p ↔
      ∃ r q, o = some (.regPair r q) ∧ r ≠ q ∧ (r.toUInt16, q.toUInt16) = p := by
  unfold requirePair requirePair.refuse
  grind

theorem requireTarget_eq_ok {ops : Operands} {off : Int32} :
    requireTarget m ops = .ok off ↔ ops.dst = none ∧ ops.src = some (.relative off) := by
  rw [requireTarget, except_bind_eq_ok]
  constructor
  · rintro ⟨_, hdst, htarget⟩
    refine ⟨forbid_eq_ok.1 hdst, ?_⟩
    split at htarget
    · rename_i off' hsrc
      rw [hsrc, except_pure_eq_ok.1 htarget]
    · exact absurd htarget except_throw_ne_ok
    · exact absurd htarget except_throw_ne_ok
  · rintro ⟨hdst, hsrc⟩
    refine ⟨(), forbid_eq_ok.2 hdst, ?_⟩
    rw [hsrc]
    rfl

theorem refuseByteOfAddr_eq_ok {size : Size} {u : Unit} :
    refuseByteOfAddr m which size ea = .ok u ↔ ¬ (size = .byte ∧ ea.modes = .an) := by
  unfold refuseByteOfAddr
  split <;> simp_all

theorem checkBitSize_eq_ok {size : Option Size} {u : Unit} :
    checkBitSize m size ea = .ok u ↔ ∀ s, size = some s → s = ea.bitSize := by
  cases size with
  | none => simp [checkBitSize]
  | some s =>
    rw [checkBitSize]
    split <;> simp_all

end Operands

namespace Definition

theorem pickSize_eq_ok {d : Definition} {requested : Option Size} {size : Size} :
    d.pickSize requested = .ok size ↔
      (requested = some size ∧ size ∈ d.sizes) ∨ (requested = none ∧ d.defaultSize = some size) := by
  cases requested with
  | none =>
    rw [pickSize]
    split <;> simp_all
  | some s =>
    rw [pickSize]
    split <;> grind

end Definition

end ColdFire
