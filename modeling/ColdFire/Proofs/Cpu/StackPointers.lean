import ColdFire.Proofs.Cpu.Handler
import Mathlib.Logic.Function.Basic

namespace ColdFire

inductive Mode where
  | user | supervisor
deriving DecidableEq

namespace Mode

def other : Mode → Mode
  | user => supervisor
  | supervisor => user

end Mode

namespace Cpu

variable (cpu : Cpu)

def mode : Mode := if cpu.isSupervisor then .supervisor else .user

/-- The stack pointer of a mode, which need not be the current one. -/
def stackPointer : Mode → UInt32
  | .user => cpu.usp
  | .supervisor => cpu.ssp

theorem mode_eq_supervisor : cpu.mode = .supervisor ↔ cpu.isSupervisor = true := by
  unfold mode
  cases cpu.isSupervisor <;> simp

theorem stackPointer_eq (mode : Mode) :
    cpu.stackPointer mode = if mode = cpu.mode then cpu.sp else cpu.otherSp := by
  unfold Cpu.mode
  cases mode <;> simp only [stackPointer, usp, ssp] <;> cases cpu.isSupervisor <;> rfl

theorem stackPointer_setSp (v : UInt32) :
    (cpu.setSp v).stackPointer = Function.update cpu.stackPointer cpu.mode v := by
  funext mode
  have hmode : (cpu.setSp v).mode = cpu.mode := rfl
  by_cases h : mode = cpu.mode
  · subst h
    rw [stackPointer_eq, hmode, if_pos rfl, sp_setSp, Function.update_self]
  · rw [stackPointer_eq, hmode, if_neg h, Function.update_of_ne h, stackPointer_eq, if_neg h]
    rfl

theorem stackPointer_setUsp (v : UInt32) :
    (cpu.setUsp v).stackPointer = Function.update cpu.stackPointer .user v := by
  unfold setUsp
  by_cases hsuper : cpu.isSupervisor = true
  · have hcurrent := cpu.mode_eq_supervisor.2 hsuper
    rw [if_pos hsuper]
    funext mode
    have hmode : ({ cpu with otherSp := v } : Cpu).mode = cpu.mode := rfl
    rw [stackPointer_eq, hmode, hcurrent]
    cases mode with
    | user => rfl
    | supervisor =>
      rw [Function.update_of_ne (by decide), stackPointer_eq, hcurrent]
      rfl
  · have hcurrent : cpu.mode = .user := if_neg hsuper
    rw [if_neg hsuper, stackPointer_setSp, hcurrent]

/-- A change of mode takes A7 along: neither stack pointer moves, whatever the status is. -/
theorem stackPointer_setSr (value : UInt16) :
    (cpu.setSr value).stackPointer = cpu.stackPointer := by
  have hset : ∀ other : Cpu, other.sr = value &&& Status.implemented →
      other.isSupervisor = Flag.supervisor.isSet (value &&& Status.implemented) :=
    fun other h => congrArg Flag.supervisor.isSet h
  have hmode := hset _ (cpu.sr_setSr value)
  funext mode
  rw [stackPointer_eq, stackPointer_eq, Cpu.mode, hmode]
  unfold setSr Cpu.mode
  dsimp only
  cases Flag.supervisor.isSet (value &&& Status.implemented) <;> cases cpu.isSupervisor <;>
    cases mode <;> first | rfl | exact sp_setSp _ _

theorem mode_reset (pc : UInt32) : (cpu.reset pc).mode = .supervisor := by
  have hset : Flag.supervisor.isSet Status.reset = true := by decide
  exact (mode_eq_supervisor _).2 hset

/-- A reset goes to supervisor mode and leaves A7 and the pointer put away where they are: from user
mode, the two stack pointers change places. -/
theorem stackPointer_reset (pc : UInt32) (mode : Mode) :
    (cpu.reset pc).stackPointer mode =
      cpu.stackPointer (if cpu.mode = .supervisor then mode else mode.other) := by
  rw [stackPointer_eq, stackPointer_eq, mode_reset]
  cases cpu.mode <;> cases mode <;> rfl

/-- The user stack at 0x60 and the supervisor stack at 0x80 change hands. -/
theorem stackPointer_reset_of_user :
    let cpu : Cpu := { (Cpu.new {}).setSp 0x60 with sr := 0, otherSp := 0x80 }
    cpu.usp = 0x60 ∧ cpu.ssp = 0x80 ∧
      (cpu.reset 0x100).usp = 0x80 ∧ (cpu.reset 0x100).ssp = 0x60 := by
  decide

theorem stackPointer_reset_of_supervisor (h : cpu.mode = .supervisor) (pc : UInt32) :
    (cpu.reset pc).stackPointer = cpu.stackPointer := by
  funext mode
  rw [stackPointer_reset, if_pos h]

theorem stackPointer_atHandler (handler : UInt32) :
    (cpu.atHandler handler).stackPointer =
      Function.update cpu.stackPointer .supervisor cpu.frameSp := by
  funext mode
  cases mode with
  | user => exact cpu.usp_atHandler handler
  | supervisor =>
    rw [Function.update_self, stackPointer_eq,
      (mode_eq_supervisor _).2 (cpu.isSupervisor_atHandler handler), if_pos rfl, sp_atHandler]

end Cpu

end ColdFire
