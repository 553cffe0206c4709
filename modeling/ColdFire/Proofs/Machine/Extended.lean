import ColdFire.Proofs.Cpu.Registers
import ColdFire.Proofs.Machine.Instruction

namespace ColdFire

/-- The instructions that take a carry in and hand one on. -/
inductive Extended where
  | add | sub | neg
deriving DecidableEq

namespace Extended

def mnemonic : Extended → String
  | add => "addx"
  | sub => "subx"
  | neg => "negx"

def operation : Extended → Operation
  | add => .extendedArith .add
  | sub => .extendedArith .sub
  | neg => .negate true

def alu : Extended → AluOp
  | add => .add
  | sub => .sub
  | neg => .neg

def result (k : Extended) (a b : UInt32) (x : Bool) : UInt32 :=
  match k with
  | add => a + b + x.toUInt32
  | sub => a - b - x.toUInt32
  | neg => 0 - b - x.toUInt32

/-- The register that an instruction writes, and its numbers. A negation has one number. -/
def Reads (k : Extended) (d : Decoded) (cpu : Cpu) (target : UInt8) (a b : UInt32) : Prop :=
  d.dst = some (.dataReg target) ∧
    match k with
    | neg => a = 0 ∧ b = cpu.dataReg target
    | _ => a = cpu.dataReg target ∧ ∃ s, d.src = some (.dataReg s) ∧ b = cpu.dataReg s

/-- The processor after an instruction, but for its program counter. -/
def after (k : Extended) (cpu : Cpu) (target : UInt8) (a b : UInt32) : Cpu :=
  let r := k.result a b (cpu.flag .extend)
  (cpu.setDataReg target r).setArithFlags r a b .long true k.alu

variable {k : Extended}

theorem agreesButCodes_after (k : Extended) (cpu : Cpu) (target : UInt8) (a b : UInt32) :
    (cpu.setDataReg target (k.result a b (cpu.flag .extend))).AgreesButCodes
      (k.after cpu target a b) :=
  Cpu.agreesButCodes_setArithFlags _ _ _ _ _ _

theorem dataReg_after (k : Extended) (cpu : Cpu) (target : UInt8) (a b : UInt32) :
    (k.after cpu target a b).dataReg target = k.result a b (cpu.flag .extend) := by
  obtain ⟨sr, hcpu, -⟩ := k.agreesButCodes_after cpu target a b
  rw [hcpu]
  exact Cpu.dataReg_setDataReg _ _ _

theorem Reads.unique {d : Decoded} {cpu : Cpu} {target target' : UInt8} {a a' b b' : UInt32}
    (h : k.Reads d cpu target a b) (h' : k.Reads d cpu target' a' b') :
    target = target' ∧ a = a' ∧ b = b' := by
  obtain ⟨hdst, h⟩ := h
  obtain ⟨hdst', h'⟩ := h'
  cases hdst.symm.trans hdst'
  refine ⟨rfl, ?_⟩
  cases k with
  | add | sub =>
    obtain ⟨rfl, s, hsrc, rfl⟩ := h
    obtain ⟨rfl, s', hsrc', rfl⟩ := h'
    cases hsrc.symm.trans hsrc'
    exact ⟨rfl, rfl⟩
  | neg => exact ⟨h.1.trans h'.1.symm, h.2.trans h'.2.symm⟩

end Extended

namespace Catalogue

theorem extended (k : Extended) : ∀ d ∈ all, k.mnemonic ∈ d.mnemonic :: d.format.ownNames →
    d.privileged = false ∧ d.operation = k.operation := by
  cases k <;> decide +kernel

end Catalogue

variable {β : Type} [Bus β]

namespace Exec

variable {d : Decoded} {c : Context β} {r s : UInt8}

omit [Bus β] in
theorem resolve_dataReg (r : UInt8) (c : Context β) :
    resolve (.dataReg r) .long c = .ok (.data r) c := rfl

theorem read_data (r : UInt8) (c : Context β) :
    read (.data r) .long c = .ok (c.cpu.dataReg r) c :=
  congrArg (EStateM.Result.ok · c) (Size.and_mask_long _)

theorem write_data (r : UInt8) (v : UInt32) (c : Context β) :
    write (.data r) .long v c = .ok () { c with cpu := c.cpu.setDataReg r v } := by
  have hall (w : UInt32) : (w &&& ~~~Size.long.mask) ||| (v &&& Size.long.mask) = v := by
    rw [Size.and_mask_long]
    exact (congrArg (· ||| v) UInt32.and_zero).trans UInt32.zero_or
  change EStateM.Result.ok () { c with cpu := c.cpu.setDataReg r (_ ||| _) } = _
  rw [hall]

theorem extendedArith_eq (op : ArithOp) (hsrc : d.src = some (.dataReg s))
    (hdst : d.dst = some (.dataReg r)) :
    let v := op.apply (op.apply (c.cpu.dataReg r) (c.cpu.dataReg s)) (c.cpu.flag .extend).toUInt32
    extendedArith op d c = .ok () { c with
      cpu := (c.cpu.setDataReg r v).setArithFlags v (c.cpu.dataReg r) (c.cpu.dataReg s) .long true
        op.alu } := by
  have hread : readEa (.dataReg s) .long c = .ok (c.cpu.dataReg s) c := read_data s c
  rw [extendedArith, bind_source hsrc, bind_destination hdst]
  dsimp only
  rw [bind_of_ok hread, bind_of_ok (resolve_dataReg r c), bind_of_ok (read_data r c),
    bind_cpu, bind_of_ok (write_data r _ c)]
  rfl

theorem negate_eq (hdst : d.dst = some (.dataReg r)) :
    let v := 0 - c.cpu.dataReg r - (c.cpu.flag .extend).toUInt32
    negate true d c = .ok () { c with
      cpu := (c.cpu.setDataReg r v).setArithFlags v 0 (c.cpu.dataReg r) .long true .neg } := by
  rw [negate, bind_destination hdst]
  dsimp only
  rw [bind_of_ok (resolve_dataReg r c), bind_of_ok (read_data r c), bind_cpu, Bool.true_and,
    bind_of_ok (write_data r _ c)]
  rfl

end Exec

theorem Machine.Performs.extended {m : Machine β} {d : Decoded} {x : Definition} {c : Context β}
    {k : Extended} (h : m.Performs d x c) (hname : d.mnemonic = k.mnemonic) :
    x.privileged = false ∧ ∃ target a b, k.Reads d m.cpu target a b ∧
      Exec.perform x.operation d c = .ok () { c with cpu := k.after m.cpu target a b } := by
  obtain ⟨hpriv, hop⟩ := Catalogue.extended k x h.listed (hname ▸ h.named)
  have htakes := h.takes
  rw [hop] at htakes ⊢
  refine ⟨hpriv, ?_⟩
  rw [← h.cpu]
  cases k with
  | add | sub =>
    obtain ⟨s, hsrc⟩ := Demand.meets_dn htakes.src
    obtain ⟨r, hdst⟩ := Demand.meets_dn htakes.dst
    exact ⟨r, _, _, ⟨hdst, rfl, s, hsrc, rfl⟩, Exec.extendedArith_eq _ hsrc hdst⟩
  | neg =>
    obtain ⟨r, hdst⟩ := Demand.meets_dn htakes.dst
    exact ⟨r, _, _, ⟨hdst, rfl, rfl⟩, Exec.negate_eq hdst⟩

theorem Machine.At.step_extended {m : Machine β} {d : Decoded} {k : Extended} (h : m.At d)
    (hname : d.mnemonic = k.mnemonic) :
    ∃ target a b pc, k.Reads d m.cpu target a b ∧
      Run.step .full m = .ok .running ⟨{ k.after m.cpu target a b with pc := pc }, m.bus⟩ := by
  obtain ⟨x, c, hx⟩ := h.performs
  obtain ⟨hpriv, target, a, b, hreads, hperform⟩ := hx.extended hname
  obtain ⟨sr, hcpu, -⟩ := k.agreesButCodes_after m.cpu target a b
  have hstate : (k.after m.cpu target a b).state = .running := by
    rw [hcpu]
    exact h.running
  have hstep := hx.step_eq hpriv hperform hstate
  rw [hx.bus] at hstep
  exact ⟨target, a, b, _, hreads, hstep⟩

end ColdFire
