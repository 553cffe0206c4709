import ColdFire.Cpu.Basic

namespace ColdFire

theorem val_regIndex {r : UInt8} (h : r.toNat < 8) : (regIndex r).val = r.toNat :=
  Nat.mod_eq_of_lt h

namespace Cpu

variable (cpu : Cpu) (r : UInt8) (v : UInt32)

theorem d_setDataReg (i : Fin 8) (hi : regIndex r ≠ i) :
    (cpu.setDataReg r v).d.get i = cpu.d.get i :=
  Vector.getElem_set_ne (regIndex r).isLt i.isLt fun h => hi (Fin.ext h)

theorem a_setAddrReg (i : Fin 8) (hi : regIndex r ≠ i) :
    (cpu.setAddrReg r v).a.get i = cpu.a.get i :=
  Vector.getElem_set_ne (regIndex r).isLt i.isLt fun h => hi (Fin.ext h)

theorem dataReg_setDataReg_of_ne {s : UInt8} (hs : regIndex r ≠ regIndex s) :
    (cpu.setDataReg r v).dataReg s = cpu.dataReg s :=
  cpu.d_setDataReg r v _ hs

theorem addrReg_setAddrReg_of_ne {s : UInt8} (hs : regIndex r ≠ regIndex s) :
    (cpu.setAddrReg r v).addrReg s = cpu.addrReg s :=
  cpu.a_setAddrReg r v _ hs

@[simp] theorem dataReg_setDataReg : (cpu.setDataReg r v).dataReg r = v :=
  Vector.getElem_set_self (regIndex r).isLt

@[simp] theorem addrReg_setAddrReg : (cpu.setAddrReg r v).addrReg r = v :=
  Vector.getElem_set_self (regIndex r).isLt

theorem addrReg_congr {s : UInt8} (h : regIndex r = regIndex s) : cpu.addrReg r = cpu.addrReg s :=
  congrArg cpu.a.get h

theorem addrReg_of_a {cpu' : Cpu} (h : cpu.a = cpu'.a) : cpu.addrReg r = cpu'.addrReg r :=
  congrArg (Vector.get · (regIndex r)) h

theorem setAddrReg_setAddrReg (w : UInt32) :
    (cpu.setAddrReg r v).setAddrReg r w = cpu.setAddrReg r w := by
  unfold setAddrReg
  rw [Vector.set_set]

theorem a_setSp (i : Fin 8) (hi : i ≠ regIndex 7) : (cpu.setSp v).a.get i = cpu.a.get i :=
  a_setAddrReg cpu 7 v i hi.symm

theorem addrReg_setSp_of_ne {s : UInt8} (hs : regIndex s ≠ regIndex 7) :
    (cpu.setSp v).addrReg s = cpu.addrReg s :=
  cpu.addrReg_setAddrReg_of_ne 7 v hs.symm

@[simp] theorem sp_setSp : (cpu.setSp v).sp = v := addrReg_setAddrReg cpu 7 v

theorem d_setSr (value : UInt16) : (cpu.setSr value).d = cpu.d := by
  unfold setSr
  dsimp only
  split <;> rfl

theorem a_setSr (value : UInt16) (i : Fin 8) (hi : i ≠ regIndex 7) :
    (cpu.setSr value).a.get i = cpu.a.get i := by
  unfold setSr
  dsimp only
  split
  · rfl
  · exact a_setSp cpu _ i hi

theorem d_setUsp : (cpu.setUsp v).d = cpu.d := by
  unfold setUsp
  split <;> rfl

theorem a_setUsp (i : Fin 8) (hi : i ≠ regIndex 7) : (cpu.setUsp v).a.get i = cpu.a.get i := by
  unfold setUsp
  split
  · rfl
  · exact a_setSp cpu _ i hi

end Cpu

end ColdFire
