import ColdFire.Proofs.Cpu.StackPointers
import ColdFire.Proofs.Execution.Entry
import ColdFire.Proofs.Memory.Linear

namespace ColdFire

/-- What changes the mode of the processor or a stack pointer from outside of a program. -/
inductive StackOperation where
  | setSr (value : UInt16)
  | setUsp (v : UInt32)
  | reset (pc : UInt32)
  | resetFromVectors
  | enterException (e : Exception) (faultPc : UInt32)

namespace StackOperation

variable {β : Type} [Bus β]

def run : StackOperation → Run β Unit
  | setSr value => do Run.setCpu ((← Run.cpu).setSr value)
  | setUsp v => do Run.setCpu ((← Run.cpu).setUsp v)
  | reset pc => do Run.setCpu ((← Run.cpu).reset pc)
  | resetFromVectors => Run.resetFromVectors
  | enterException e faultPc => Run.enterException e faultPc

def gives (m : Machine β) : StackOperation → Option (Mode × UInt32)
  | setSr _ => none
  | setUsp v => some (.user, v)
  | reset _ => none
  | resetFromVectors => (fetch m.bus .long m.cpu.vbr).toOption.map (.supervisor, ·)
  | enterException .. => some (.supervisor, m.cpu.frameSp)

def isReset : StackOperation → Bool
  | reset _ => true
  | resetFromVectors => true
  | _ => false

end StackOperation

/-- A machine after some operations, and what they gave to the stack pointers, the latest first. -/
structure History (β : Type) where
  machine : Machine β
  given : List (Mode × UInt32)

namespace History

variable {β : Type} [Bus β]

/-- One more operation. One that fails has given nothing. -/
def perform (h : History β) (op : StackOperation) : History β :=
  match op.run h.machine with
  | .ok _ m => ⟨m, (op.gives h.machine).toList ++ h.given⟩
  | .error _ m => ⟨m, h.given⟩

def performAll (m : Machine β) (ops : List StackOperation) : History β := ops.foldl perform ⟨m, []⟩

def last? (h : History β) (mode : Mode) : Option UInt32 := h.given.lookup mode

end History

namespace Run

variable {β : Type} [Bus β] {m m' : Machine β}

theorem resetFromVectors_eq : resetFromVectors m =
    match fetch m.bus .long m.cpu.vbr with
    | .error t => .error t m
    | .ok ssp =>
      match fetch m.bus .long (m.cpu.vbr + 4) with
      | .error t => .error t m
      | .ok pc => .ok () ⟨(m.cpu.reset pc).setSp ssp, m.bus⟩ := by
  unfold resetFromVectors
  simp only [bind, EStateM.bind, Run.cpu, readMem]
  cases fetch m.bus .long m.cpu.vbr with
  | error t => rfl
  | ok ssp =>
    dsimp only
    cases fetch m.bus .long (m.cpu.vbr + 4) <;> rfl

theorem of_resetFromVectors_ok (h : resetFromVectors m = .ok () m') :
    ∃ ssp pc, fetch m.bus .long m.cpu.vbr = .ok ssp ∧ m'.cpu = (m.cpu.reset pc).setSp ssp := by
  rw [resetFromVectors_eq] at h
  split at h
  · cases h
  · rename_i ssp hssp
    split at h
    · cases h
    · rename_i pc _
      cases h
      exact ⟨ssp, pc, hssp, rfl⟩

theorem resetFromVectors_error {t : Trap} (h : resetFromVectors m = .error t m') : m' = m := by
  rw [resetFromVectors_eq] at h
  split at h
  · cases h
    rfl
  · split at h
    · cases h
      rfl
    · cases h

end Run

namespace StackOperation

variable {β : Type} [Bus β] {m m' : Machine β} (op : StackOperation)

/-- One step: a stack pointer that is not given a value stays, whatever happens to the mode. -/
theorem stackPointer_of_run (hrun : op.run m = .ok () m')
    (hreset : op.isReset = true → m.cpu.mode = .supervisor) (mode : Mode) :
    m'.cpu.stackPointer mode =
      ((op.gives m).toList.lookup mode).getD (m.cpu.stackPointer mode) := by
  cases op with
  | setSr value =>
    cases hrun
    exact congrFun (m.cpu.stackPointer_setSr value) mode
  | setUsp v =>
    cases hrun
    refine (congrFun (m.cpu.stackPointer_setUsp v) mode).trans ?_
    cases mode <;> rfl
  | reset pc =>
    cases hrun
    exact congrFun (m.cpu.stackPointer_reset_of_supervisor (hreset rfl) pc) mode
  | resetFromVectors =>
    obtain ⟨ssp, pc, hssp, hcpu⟩ := Run.of_resetFromVectors_ok hrun
    rw [hcpu, Cpu.stackPointer_setSp, Cpu.mode_reset,
      m.cpu.stackPointer_reset_of_supervisor (hreset rfl), gives, hssp]
    cases mode <;> rfl
  | enterException e faultPc =>
    obtain ⟨handler, bus, hentered⟩ := Run.entered_of_ok hrun
    rw [hentered.cpu, Cpu.stackPointer_atHandler]
    cases mode <;> rfl

theorem cpu_of_run_error {t : Trap} (hrun : op.run m = .error t m') : m'.cpu = m.cpu := by
  cases op with
  | setSr value => cases hrun
  | setUsp v => cases hrun
  | reset pc => cases hrun
  | resetFromVectors => rw [Run.resetFromVectors_error hrun]
  | enterException e faultPc => exact Run.cpu_of_enterException_error hrun

end StackOperation

namespace History

variable {β : Type} [Bus β] {h : History β}

/-- The stack pointers are what they were last given, and until then what they were at first. -/
def Faithful (first : Cpu) (h : History β) : Prop :=
  ∀ mode, h.machine.cpu.stackPointer mode = (h.last? mode).getD (first.stackPointer mode)

theorem lookup_append_getD (xs ys : List (Mode × UInt32)) (mode : Mode) (v : UInt32) :
    ((xs ++ ys).lookup mode).getD v = (xs.lookup mode).getD ((ys.lookup mode).getD v) := by
  rw [List.lookup_append]
  cases xs.lookup mode <;> rfl

theorem Faithful.perform {first : Cpu} (hfaithful : h.Faithful first) (op : StackOperation)
    (hreset : op.isReset = true → h.machine.cpu.mode = .supervisor) :
    (h.perform op).Faithful first := by
  intro mode
  unfold History.perform
  split
  · rename_i m' hrun
    rw [op.stackPointer_of_run hrun hreset mode, hfaithful mode, last?, last?, lookup_append_getD]
  · rename_i t m' hrun
    rw [op.cpu_of_run_error hrun]
    exact hfaithful mode

def ResetsInSupervisor (h : History β) : List StackOperation → Prop
  | [] => True
  | op :: ops =>
    (op.isReset = true → h.machine.cpu.mode = .supervisor) ∧ (h.perform op).ResetsInSupervisor ops

instance decidableResetsInSupervisor :
    (h : History β) → (ops : List StackOperation) → Decidable (h.ResetsInSupervisor ops)
  | _, [] => .isTrue trivial
  | h, op :: ops =>
    @instDecidableAnd _ _ inferInstance (decidableResetsInSupervisor (h.perform op) ops)

theorem Faithful.foldl {first : Cpu} (hfaithful : h.Faithful first) (ops : List StackOperation)
    (hresets : h.ResetsInSupervisor ops) : (ops.foldl History.perform h).Faithful first := by
  induction ops generalizing h with
  | nil => exact hfaithful
  | cons op ops ih => exact ih (hfaithful.perform op hresets.1) hresets.2

/-- Over any sequence of operations the two stack pointers do not get mixed up, as long as no reset
is made in user mode: each holds the value that it was last given, or else the one it had. -/
theorem stackPointer_performAll (m : Machine β) (ops : List StackOperation)
    (hresets : ResetsInSupervisor ⟨m, []⟩ ops) (mode : Mode) :
    (performAll m ops).machine.cpu.stackPointer mode =
      ((performAll m ops).last? mode).getD (m.cpu.stackPointer mode) := by
  have hfirst : Faithful m.cpu ⟨m, []⟩ := fun _ => rfl
  exact hfirst.foldl ops hresets mode

set_option maxRecDepth 1000 in
/-- From user mode into a trap, to a new user stack and back to user mode, and into another trap,
with a reset from there. -/
theorem stackPointer_performAll_of_traps :
    let m : Machine LinearMemory :=
      ⟨{ (Cpu.new {}).setSp 0x60 with sr := 0x0004, otherSp := 0xFE }, .zeroed 0x100 0⟩
    let ops : List StackOperation :=
      [.enterException (.trap 0) 0x22, .setUsp 0x40, .setSr 0, .enterException (.trap 1) 0x24,
        .reset 0x10]
    (performAll m ops).given = [(.supervisor, 0xEC), (.user, 0x40), (.supervisor, 0xF4)] ∧
      ∀ mode, (performAll m ops).machine.cpu.stackPointer mode =
        ((performAll m ops).last? mode).getD (m.cpu.stackPointer mode) := by
  intro m ops
  have hgiven : (performAll m ops).given =
      [(.supervisor, 0xEC), (.user, 0x40), (.supervisor, 0xF4)] := by decide
  have hresets : ResetsInSupervisor ⟨m, []⟩ ops := by decide
  exact ⟨hgiven, stackPointer_performAll m ops hresets⟩

end History

end ColdFire
