import ColdFire.Cpu.Exception
import ColdFire.Proofs.Cpu.Registers
import Mathlib.Data.Nat.Bitwise

namespace ColdFire

theorem and_not_add_and (x m : UInt32) : (x &&& ~~~m) + (x &&& m) = x := by
  have hdisjoint : (x.toBitVec &&& ~~~m.toBitVec) &&& (x.toBitVec &&& m.toBitVec) = 0#32 := by
    ext i hi
    simp only [BitVec.getElem_and, BitVec.getElem_not, BitVec.getElem_zero]
    cases m.toBitVec[i] <;> simp
  have hunion : (x.toBitVec &&& ~~~m.toBitVec) ||| (x.toBitVec &&& m.toBitVec) = x.toBitVec := by
    ext i hi
    simp only [BitVec.getElem_or, BitVec.getElem_and, BitVec.getElem_not]
    cases m.toBitVec[i] <;> simp
  apply UInt32.toBitVec_inj.1
  exact (BitVec.add_eq_or_of_and_eq_zero _ _ hdisjoint).trans hunion

namespace Exception

variable (misalign vector : UInt32) (sr : UInt16)

theorem toNat_format : ((4 : UInt32) ||| (misalign &&& 3)).toNat = 4 + misalign.toNat % 4 := by
  have hor : ∀ r < 4, 4 ||| r = 4 + r := by decide
  rw [UInt32.toNat_or, UInt32.toNat_and]
  change 4 ||| (misalign.toNat &&& (2 ^ 2 - 1)) = _
  rw [Nat.and_two_pow_sub_one_eq_mod]
  exact hor _ (Nat.mod_lt _ (by decide))

theorem toNat_frameWord : (frameWord misalign vector sr).toNat =
    (4 + misalign.toNat % 4) * 2 ^ 28 + (vector.toNat % 256 * 2 ^ 18 + sr.toNat) := by
  have hsr := sr.toNat_lt
  have hvector : ((vector &&& 0xFF) <<< 18).toNat = (vector.toNat % 256) <<< 18 := by
    rw [UInt32.toNat_shiftLeft, UInt32.toNat_and]
    change (vector.toNat &&& (2 ^ 8 - 1)) <<< 18 % 2 ^ 32 = _
    rw [Nat.and_two_pow_sub_one_eq_mod, Nat.shiftLeft_eq]
    omega
  have hformat : (((4 : UInt32) ||| (misalign &&& 3)) <<< 28).toNat =
      (4 + misalign.toNat % 4) <<< 28 := by
    rw [UInt32.toNat_shiftLeft, toNat_format]
    change (4 + misalign.toNat % 4) <<< 28 % 2 ^ 32 = _
    rw [Nat.shiftLeft_eq]
    omega
  have hlow : (vector.toNat % 256) <<< 18 ||| sr.toNat =
      vector.toNat % 256 * 2 ^ 18 + sr.toNat := by
    rw [← Nat.shiftLeft_add_eq_or_of_lt (by omega), Nat.shiftLeft_eq]
  rw [frameWord, UInt32.toNat_or, UInt32.toNat_or, hformat, hvector, UInt16.toNat_toUInt32,
    Nat.or_assoc, hlow, ← Nat.shiftLeft_add_eq_or_of_lt (by omega), Nat.shiftLeft_eq]

theorem frameWord_format : frameWord misalign vector sr >>> 28 = 4 ||| (misalign &&& 3) := by
  have hsr := sr.toNat_lt
  rw [← UInt32.toNat_inj, UInt32.toNat_shiftRight, toNat_frameWord, toNat_format]
  change _ >>> 28 = _
  rw [Nat.shiftRight_eq_div_pow]
  omega

theorem frameWord_valid :
    ¬(frameWord misalign vector sr >>> 28 < 4 ∨
      (7 : UInt32) < frameWord misalign vector sr >>> 28) := by
  have hformat := toNat_format misalign
  rw [frameWord_format, UInt32.lt_iff_toNat_lt, UInt32.lt_iff_toNat_lt, hformat]
  change ¬(4 + misalign.toNat % 4 < 4 ∨ 7 < 4 + misalign.toNat % 4)
  omega

theorem frameWord_misalign : frameWord misalign vector sr >>> 28 &&& 3 = misalign &&& 3 := by
  rw [frameWord_format, ← UInt32.toNat_inj, UInt32.toNat_and, UInt32.toNat_and, toNat_format]
  change (4 + misalign.toNat % 4) &&& (2 ^ 2 - 1) = misalign.toNat &&& (2 ^ 2 - 1)
  rw [Nat.and_two_pow_sub_one_eq_mod, Nat.and_two_pow_sub_one_eq_mod]
  omega

theorem frameWord_status : (frameWord misalign vector sr).toUInt16 = sr := by
  have hsr := sr.toNat_lt
  rw [← UInt16.toNat_inj, UInt32.toNat_toUInt16, toNat_frameWord]
  omega

end Exception

theorem or_and_self (x m : UInt16) : (x ||| m) &&& m = m := by
  apply UInt16.toBitVec_inj.1
  ext i hi
  simp only [UInt16.toBitVec_and, UInt16.toBitVec_or, BitVec.getElem_or, BitVec.getElem_and]
  cases m.toBitVec[i] <;> simp

namespace Cpu

variable (cpu : Cpu)

/-- Where the frame of an exception is stacked: eight bytes below the supervisor stack pointer, at a
multiple of four. -/
def frameSp : UInt32 := (cpu.ssp &&& ~~~3) - 8

def handlerStatus : UInt16 :=
  Flag.master.put false (Flag.trace.put false (Flag.supervisor.put true cpu.sr))

def atHandler (handler : UInt32) : Cpu :=
  { (cpu.setSr cpu.handlerStatus).setSp cpu.frameSp with
    pc := handler
    state := if cpu.state = .stopped then .running else cpu.state }

variable (handler : UInt32)

theorem sr_setSr (value : UInt16) : (cpu.setSr value).sr = value &&& Status.implemented := by
  unfold setSr
  dsimp only
  split <;> rfl

theorem control_setSr (value : UInt16) : (cpu.setSr value).control = cpu.control := by
  unfold setSr
  dsimp only
  split <;> rfl

theorem state_setSr (value : UInt16) : (cpu.setSr value).state = cpu.state := by
  unfold setSr
  dsimp only
  split <;> rfl

theorem supervisor_handlerStatus :
    Flag.supervisor.isSet (cpu.handlerStatus &&& Status.implemented) = true := by
  have hmask : cpu.handlerStatus &&& Status.implemented &&& Flag.supervisor.mask =
      (cpu.sr ||| Flag.supervisor.mask) &&& Flag.supervisor.mask := by
    unfold handlerStatus Flag.put
    rw [if_neg (by decide), if_neg (by decide), if_pos rfl]
    simp only [UInt16.and_assoc]
    rfl
  rw [Flag.isSet, hmask, or_and_self]
  rfl

theorem isSupervisor_atHandler : (cpu.atHandler handler).isSupervisor = true :=
  (congrArg Flag.supervisor.isSet (cpu.sr_setSr _)).trans cpu.supervisor_handlerStatus

theorem sp_atHandler : (cpu.atHandler handler).sp = cpu.frameSp := sp_setSp _ _

theorem control_atHandler : (cpu.atHandler handler).control = cpu.control := cpu.control_setSr _

/-- The mode changes if it was user mode, and then so do the stack pointers. -/
theorem setSr_handlerStatus : cpu.setSr cpu.handlerStatus =
    if cpu.isSupervisor then { cpu with sr := cpu.handlerStatus &&& Status.implemented }
    else { (cpu.setSp cpu.otherSp) with
      sr := cpu.handlerStatus &&& Status.implemented, otherSp := cpu.sp } := by
  unfold setSr
  dsimp only
  rw [supervisor_handlerStatus]
  cases cpu.isSupervisor <;> rfl

theorem usp_atHandler : (cpu.atHandler handler).usp = cpu.usp := by
  have hother : (cpu.setSr cpu.handlerStatus).otherSp = cpu.usp := by
    rw [setSr_handlerStatus, usp]
    split <;> rfl
  rw [usp, if_pos (cpu.isSupervisor_atHandler handler)]
  exact hother

/-- Back on the stack and in the status of before, the processor is what it was. -/
theorem setSr_setSp_atHandler (hsr : cpu.sr &&& Status.implemented = cpu.sr)
    (hstate : cpu.state ≠ .stopped) :
    ((cpu.atHandler handler).setSp cpu.ssp).setSr cpu.sr = { cpu with pc := handler } := by
  have hsuper : ((cpu.atHandler handler).setSp cpu.ssp).isSupervisor = true :=
    cpu.isSupervisor_atHandler handler
  have hset : Flag.supervisor.isSet cpu.sr = cpu.isSupervisor := rfl
  unfold setSr
  dsimp only
  rw [hsr, hset, hsuper]
  unfold atHandler
  rw [setSr_handlerStatus, if_neg hstate]
  cases hmode : cpu.isSupervisor with
  | true =>
    simp only [if_true, setSp, setAddrReg, ssp, sp, addrReg, hmode, Vector.set_set,
      Fin.getElem_fin, Vector.set_getElem_self]
  | false =>
    simp only [Bool.false_eq_true, if_false, setSp, setAddrReg, ssp, sp, addrReg, hmode,
      Vector.set_set, Fin.getElem_fin, Vector.getElem_set_self, Vector.set_getElem_self]

end Cpu

end ColdFire
