import ColdFire.Proofs.Cpu.Registers
import ColdFire.Proofs.Execution.Undo

namespace ColdFire

namespace Cpu

/-- Two processors agree in what a program in user mode has no business with: status beyond the
condition codes, the other stack pointer, control registers, configuration and run state. -/
structure SameSystem (cpu cpu' : Cpu) : Prop where
  status : cpu'.sr &&& ~~~Status.conditionCodes = cpu.sr &&& ~~~Status.conditionCodes
  otherSp : cpu'.otherSp = cpu.otherSp
  control : cpu'.control = cpu.control
  config : cpu'.config = cpu.config
  state : cpu'.state = cpu.state

namespace SameSystem

theorem refl (cpu : Cpu) : cpu.SameSystem cpu := ⟨rfl, rfl, rfl, rfl, rfl⟩

theorem trans {cpu cpu' cpu'' : Cpu} (h : cpu.SameSystem cpu') (h' : cpu'.SameSystem cpu'') :
    cpu.SameSystem cpu'' where
  status := h'.status.trans h.status
  otherSp := h'.otherSp.trans h.otherSp
  control := h'.control.trans h.control
  config := h'.config.trans h.config
  state := h'.state.trans h.state

end SameSystem

end Cpu

namespace Context

variable {β : Type} [Bus β] {p : Permit} {c c' : Context β}

theorem Changes.place (h : c.Changes p c') :
    c'.pc = c.pc ∧ c'.opcode = c.opcode ∧ c'.cursor = c.cursor := by
  induction h with
  | refl => exact ⟨rfl, rfl, rfl⟩
  | tail _ hlast ih => cases hlast <;> exact ih

theorem Changes.nextPc (h : c.Changes p c') : c'.nextPc = c.nextPc := by
  obtain ⟨hpc, -, hcursor⟩ := h.place
  rw [Context.nextPc, hpc, hcursor]
  rfl

theorem Changes.jump (h : c.Changes p c') (hjump : ¬ p.jump) : c'.jump = c.jump := by
  induction h with
  | refl => rfl
  | tail _ hlast ih =>
    cases hlast with
    | jump _ may => exact absurd may hjump
    | _ => exact ih

theorem Changes.sameSystem (h : c.Changes p c') (hsystem : ¬ p.system) :
    c.cpu.SameSystem c'.cpu := by
  induction h with
  | refl => exact .refl _
  | tail _ hlast ih =>
    cases hlast with
    | system may _ _ => exact absurd may hsystem
    | flags keeps => exact ih.trans ⟨keeps, rfl, rfl, rfl, rfl⟩
    | _ => exact ⟨ih.status, ih.otherSp, ih.control, ih.config, ih.state⟩

theorem Changes.data (h : c.Changes p c') {i : Fin 8} (hi : ∀ r, p.data r → regIndex r ≠ i) :
    c'.cpu.d.get i = c.cpu.d.get i := by
  induction h with
  | refl => rfl
  | tail _ hlast ih =>
    cases hlast with
    | data v may => exact (Cpu.d_setDataReg _ _ _ _ (hi _ may)).trans ih
    | system _ data _ => exact (congrArg (·.get i) data).trans ih
    | _ => exact ih

theorem Changes.addr (h : c.Changes p c') {i : Fin 8} (hi : ∀ r, p.addr r → regIndex r ≠ i) :
    c'.cpu.a.get i = c.cpu.a.get i := by
  induction h with
  | refl => rfl
  | tail _ hlast ih =>
    cases hlast with
    | addr v may => exact (Cpu.a_setAddrReg _ _ _ _ (hi _ may)).trans ih
    | system _ _ addr => exact (addr i (hi 7 p.stack).symm).trans ih
    | _ => exact ih

/-- A byte is written only where the permit allows a write that covers it. -/
theorem Changes.byte? [LawfulBus β] [ByteBus β] (h : c.Changes p c') {a : UInt32}
    (ha : ∀ addr size, p.memory addr size → ∀ k < size.bytes, a ≠ addr + UInt32.ofNat k) :
    ByteBus.byte? c'.bus a = ByteBus.byte? c.bus a := by
  induction h with
  | refl => rfl
  | tail _ hlast ih =>
    cases hlast with
    | write may _ writes => exact (byte?_store writes (ha _ _ may)).trans ih
    | refused fails => rw [store_error fails, ih]
    | _ => exact ih

end Context

end ColdFire
