import ColdFire.Proofs.Cpu.Codes
import ColdFire.Proofs.Cpu.Handler
import ColdFire.Proofs.Word.Number

namespace ColdFire

namespace Flag

theorem mask_and_mask (f g : Flag) : f.mask &&& g.mask = if f = g then g.mask else 0 := by
  cases f <;> cases g <;> rfl

theorem not_mask_and_mask (f g : Flag) : ~~~f.mask &&& g.mask = if f = g then 0 else g.mask := by
  cases f <;> cases g <;> rfl

@[simp] theorem isSet_put (f g : Flag) (on : Bool) (status : UInt16) :
    g.isSet (f.put on status) = if f = g then on else g.isSet status := by
  unfold isSet put
  cases on with
  | true =>
    rw [if_pos rfl]
    by_cases h : f = g
    · rw [if_pos h, h, or_and_self]
      cases g <;> rfl
    · have hdisjoint : f.mask &&& g.mask = 0 := (mask_and_mask f g).trans (if_neg h)
      rw [if_neg h, or_and_of_and_eq_zero hdisjoint]
  | false =>
    rw [if_neg Bool.false_ne_true, UInt16.and_assoc, not_mask_and_mask]
    by_cases h : f = g
    · rw [if_pos h, if_pos h, UInt16.and_zero]
      rfl
    · rw [if_neg h, if_neg h]

theorem isSet_congr {f : Flag} {k status status' : UInt16} (hk : k &&& f.mask = f.mask)
    (h : status &&& k = status' &&& k) : f.isSet status = f.isSet status' := by
  unfold isSet
  rw [← hk, ← UInt16.and_assoc, ← UInt16.and_assoc, h]

end Flag

namespace Cpu

variable {cpu cpu' : Cpu} {f : Flag}

@[simp] theorem flag_setFlag (cpu : Cpu) (f g : Flag) (on : Bool) :
    (cpu.setFlag f on).flag g = if f = g then on else cpu.flag g :=
  Flag.isSet_put f g on cpu.sr

theorem AgreesButCodes.withPc (h : cpu.AgreesButCodes cpu') (pc : UInt32) :
    Cpu.AgreesButCodes { cpu with pc := pc } { cpu' with pc := pc } := by
  obtain ⟨sr, rfl, hsr⟩ := h
  exact ⟨sr, rfl, hsr⟩

theorem flag_of_ccr (hf : f.mask &&& ~~~Status.conditionCodes = 0) (h : cpu.ccr = cpu'.ccr) :
    cpu.flag f = cpu'.flag f := by
  refine Flag.isSet_congr (k := Status.conditionCodes) ?_ ?_
  · cases f <;> first | rfl | exact absurd hf (by decide)
  · have hlow (status : UInt16) : (status &&& Status.conditionCodes).toUInt8.toUInt16 =
        status &&& Status.conditionCodes := by
      apply toUInt16_toUInt8
      rw [UInt16.toNat_and]
      exact Nat.lt_of_le_of_lt Nat.and_le_right (by decide)
    rw [← hlow cpu.sr, ← hlow cpu'.sr]
    exact congrArg UInt8.toUInt16 h

theorem sign_and_mask (size : Size) (v : UInt32) :
    (v &&& size.mask &&& size.msb != 0) = size.sign v := by
  change size.sign (v &&& size.mask) = size.sign v
  rw [Size.sign_and, Size.sign_mask, Bool.and_true]

theorem zero_and_mask (size : Size) (v : UInt32) :
    (v &&& size.mask == 0) = decide (size.unsigned v = 0) := by
  rw [Bool.eq_iff_iff, beq_iff_eq, decide_eq_true_iff, Size.and_mask_eq_zero]

section ArithFlags

variable (cpu : Cpu) (result a b : UInt32) (size : Size) (chained : Bool) (op : AluOp)

/-- The flags that every arithmetic result sets, and the two that depend on more than the result. -/
theorem flag_setArithFlags (f : Flag) :
    (cpu.setArithFlags result a b size chained op).flag f =
      match f with
      | .negative => size.sign result
      | .zero =>
        if chained then cpu.flag .zero && decide (size.unsigned result = 0)
        else decide (size.unsigned result = 0)
      | .overflow => (carryOverflow op result a b size).2
      | .carry => (carryOverflow op result a b size).1
      | .extend =>
        if op = .cmp then cpu.flag .extend else (carryOverflow op result a b size).1
      | f => cpu.flag f := by
  unfold setArithFlags
  dsimp only
  rw [sign_and_mask, zero_and_mask]
  simp only [Size.and_mask_eq_zero]
  by_cases hop : op = .cmp <;> cases chained <;> by_cases hzero : size.unsigned result = 0 <;>
    cases f <;> simp [hop, hzero]

theorem flag_setLogicFlags (f : Flag) :
    (cpu.setLogicFlags result size).flag f =
      match f with
      | .negative => size.sign result
      | .zero => decide (size.unsigned result = 0)
      | .overflow | .carry => false
      | f => cpu.flag f := by
  unfold setLogicFlags
  dsimp only
  rw [sign_and_mask, zero_and_mask]
  cases f <;> simp

theorem flag_setDivFlags_none (f : Flag) :
    (cpu.setDivFlags none size).flag f =
      match f with
      | .overflow => true
      | .carry => false
      | f => cpu.flag f := by
  unfold setDivFlags
  cases f <;> simp

end ArithFlags

end Cpu

end ColdFire
