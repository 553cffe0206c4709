import ColdFire.Execution.Context
import ColdFire.Proofs.Cpu.Codes
import Mathlib.Logic.Relation

namespace ColdFire

variable {α γ β : Type}

/-- What an instruction may change, and how it may fail. The stack pointer may always move, and the
bus may always refuse. -/
structure Permit where
  data : UInt8 → Prop
  addr : UInt8 → Prop
  memory : UInt32 → Size → Prop
  jump : Prop
  /-- The status register beyond the condition codes, the other stack pointer, the control registers
  and the run state. -/
  system : Prop
  fault : Fault → Prop
  stack : addr 7
  bus (address : UInt32) (cause : String) : fault (.trap (.bus address cause))

namespace Context

variable [Bus β]

/-- One change that a permit allows. Where an instruction stands and which of its words were read is
never changed, and memory only along with the journal. -/
inductive Change (p : Permit) (c : Context β) : Context β → Prop
  | flags {sr : UInt16}
      (keeps : sr &&& ~~~Status.conditionCodes = c.cpu.sr &&& ~~~Status.conditionCodes) :
      Change p c { c with cpu := { c.cpu with sr := sr } }
  | data {r : UInt8} (v : UInt32) (may : p.data r) :
      Change p c { c with cpu := c.cpu.setDataReg r v }
  | addr {r : UInt8} (v : UInt32) (may : p.addr r) :
      Change p c { c with cpu := c.cpu.setAddrReg r v }
  | system {cpu : Cpu} (may : p.system) (data : cpu.d = c.cpu.d)
      (addr : ∀ i : Fin 8, i ≠ regIndex 7 → cpu.a.get i = c.cpu.a.get i) :
      Change p c { c with cpu := cpu }
  | jump (target : UInt32) (may : p.jump) : Change p c { c with jump := some target }
  | write {addr v old : UInt32} {size : Size} {bus : β} (may : p.memory addr size)
      (overwrites : fetch c.bus size addr = .ok old)
      (writes : store size addr v c.bus = .ok () bus) :
      Change p c { c with bus := bus, journal := ⟨addr, size, old⟩ :: c.journal }
  /-- A write that fails, which on some bus may leave something behind. -/
  | refused {addr v : UInt32} {size : Size} {t : Trap} {bus : β}
      (fails : store size addr v c.bus = .error t bus) : Change p c { c with bus := bus }

def Changes (p : Permit) : Context β → Context β → Prop := Relation.ReflTransGen (Change p)

variable {p : Permit} {c c' : Context β}

theorem Changes.single (h : c.Change p c') : c.Changes p c' := Relation.ReflTransGen.single h

end Context

namespace Exec

variable [Bus β] {p : Permit} {c : Context β}

/-- Whatever comes of `x`, its changes are allowed, and so is the fault that it may end with. -/
def Within (p : Permit) (x : Exec β α) (c : Context β) : Prop :=
  match x c with
  | .ok _ c' => c.Changes p c'
  | .error fault c' => c.Changes p c' ∧ p.fault fault

namespace Within

theorem of_ok {x : Exec β α} {a : α} {c' : Context β} (h : Within p x c) (hrun : x c = .ok a c') :
    c.Changes p c' := by
  rwa [Within, hrun] at h

theorem of_error {x : Exec β α} {fault : Fault} {c' : Context β} (h : Within p x c)
    (hrun : x c = .error fault c') : c.Changes p c' ∧ p.fault fault := by
  rwa [Within, hrun] at h

theorem pure (a : α) : Within p (Pure.pure a : Exec β α) c := .refl

theorem bind {x : Exec β α} {f : α → Exec β γ} (hx : Within p x c)
    (hf : ∀ a c', x c = .ok a c' → Within p (f a) c') : Within p (x >>= f) c := by
  unfold Within at *
  simp only [Bind.bind, EStateM.bind]
  cases hc : x c with
  | error fault c' =>
    -- a fault ends everything, so the first part has to permit it
    rw [hc] at hx
    exact hx
  | ok a c' =>
    rw [hc] at hx
    have hrest := hf a c' hc
    dsimp only
    cases hrun : f a c' with
    | ok b c'' =>
      rw [hrun] at hrest
      exact hx.trans hrest
    | error fault c'' =>
      rw [hrun] at hrest
      exact ⟨hx.trans hrest.1, hrest.2⟩

theorem raise {e : Exception} (h : p.fault (.exception e)) :
    Within p (raise e : Exec β α) c :=
  ⟨.refl, h⟩

theorem fail {t : Trap} (h : p.fault (.trap t)) : Within p (fail t : Exec β α) c := ⟨.refl, h⟩

theorem modifyCpu {f : Cpu → Cpu} (h : c.Change p { c with cpu := f c.cpu }) :
    Within p (modifyCpu f) c :=
  .single h

theorem flags {f : Cpu → Cpu} (h : c.cpu.AgreesButCodes (f c.cpu)) :
    Within p (Exec.modifyCpu f) c := by
  obtain ⟨sr, hf, hkeeps⟩ := h
  apply modifyCpu
  rw [hf]
  exact .flags hkeeps

theorem jumpTo (target : UInt32) (h : p.jump) : Within p (jumpTo target : Exec β Unit) c :=
  .single (.jump target h)

end Within

end Exec

end ColdFire
