import ColdFire.Execution.Perform
import ColdFire.Proofs.Cpu.Registers
import ColdFire.Proofs.Execution.Change

namespace ColdFire

variable {α γ β : Type}

namespace Ea

variable {ea : Ea} {cpu : Cpu} {size : Size} {pcBase : UInt32} {loc : Location}

def IsPlace : Ea → Prop
  | regList _ | relative _ | regPair .. => False
  | _ => True

def IsReadable : Ea → Prop
  | special (.control _) | special (.cache _) => False
  | ea => ea.IsPlace

def IsCount : Ea → Prop
  | dataReg _ | immediate _ => True
  | _ => False

def NamesRegister : Ea → Prop
  | dataReg _ | addrReg _ => True
  | special (.cache _) => False
  | special _ => True
  | _ => False

/-- The processor after the operand was found: its address register may have stepped. -/
def stepped (ea : Ea) (cpu : Cpu) (size : Size) : Cpu :=
  match ea with
  | postInc r => cpu.setAddrReg r (cpu.addrReg r + size.step r)
  | preDec r => cpu.setAddrReg r (cpu.addrReg r - size.step r)
  | _ => cpu

def At (ea : Ea) (cpu : Cpu) (size : Size) (pcBase : UInt32) (loc : Location) : Prop :=
  ∃ update, ea.locate cpu size pcBase = .ok ⟨loc, update⟩

theorem IsReadable.dataReg (r : UInt8) : (Ea.dataReg r).IsReadable := trivial

theorem IsReadable.isPlace (h : ea.IsReadable) : ea.IsPlace := by
  cases ea with
  | regList _ | relative _ | regPair _ _ => exact h
  | _ => trivial

theorem NamesRegister.isPlace (h : ea.NamesRegister) : ea.IsPlace := by
  cases ea with
  | regList _ | relative _ | regPair _ _ => exact h
  | _ => trivial

theorem IsCount.stepped_eq (h : ea.IsCount) : ea.stepped cpu size = cpu := by
  cases ea with
  | dataReg _ | immediate _ => rfl
  | _ => exact h.elim

theorem IsPlace.of_modes (h : ea.modes ≠ .none) : ea.IsPlace := by
  cases ea with
  | regList _ | relative _ | regPair _ _ => exact absurd rfl h
  | _ => trivial

theorem IsReadable.of_modes (h : ea.modes ≠ .none) : ea.IsReadable := by
  cases ea with
  | regList _ | relative _ | regPair _ _ | special _ => exact absurd rfl h
  | _ => trivial

end Ea

namespace Permit

def Steps (p : Permit) (ea : Ea) : Prop := ∀ r, ea = .postInc r ∨ ea = .preDec r → p.addr r

def Writes (p : Permit) (loc : Location) (size : Size) : Prop :=
  match loc with
  | .data r => p.data r
  | .addr r => p.addr r
  | .mem addr => p.memory addr size
  | .special .ccr => True
  | .special .sr | .special .usp => p.system
  | .special (.control code) =>
    p.system ∧ (ControlRegister.position? code = none → p.fault (.exception .illegalInstruction))
  | .imm _ | .special (.cache _) => False

end Permit

namespace Exec

theorem resolve_eq {c : Context β} {ea : Ea} (size : Size) (hplace : ea.IsPlace) :
    ∃ loc, ea.At c.cpu size c.pcBase loc ∧
      resolve ea size c = .ok loc { c with cpu := ea.stepped c.cpu size } := by
  cases ea with
  | regList _ | relative _ | regPair _ _ => exact hplace.elim
  | _ => exact ⟨_, ⟨_, rfl⟩, rfl⟩

namespace Within

variable [Bus β] {p : Permit} {c : Context β}

theorem ite {q : Prop} [Decidable q] {x y : Exec β α} (hx : Within p x c) (hy : Within p y c) :
    Within p (if q then x else y) c := by
  split
  · exact hx
  · exact hy

theorem bind_cpu {f : Cpu → Exec β γ} (h : Within p (f c.cpu) c) :
    Within p (Exec.cpu >>= f) c := h

theorem bind_nextPc {f : UInt32 → Exec β γ} (h : Within p (f c.nextPc) c) :
    Within p (Exec.nextPc >>= f) c := h

theorem bind_source {d : Decoded} {src : Ea} {f : Ea → Exec β γ} (hsrc : d.src = some src)
    (h : Within p (f src) c) : Within p (ofLogic d.source >>= f) c := by
  rw [Decoded.source, hsrc]
  exact h

theorem bind_destination {d : Decoded} {dst : Ea} {f : Ea → Exec β γ} (hdst : d.dst = some dst)
    (h : Within p (f dst) c) : Within p (ofLogic d.destination >>= f) c := by
  rw [Decoded.destination, hdst]
  exact h

theorem bind_modifyCpu {g : Cpu → Cpu} {f : Unit → Exec β γ}
    (hchange : c.Change p { c with cpu := g c.cpu })
    (h : Within p (f ()) { c with cpu := g c.cpu }) : Within p (Exec.modifyCpu g >>= f) c := by
  refine .bind (.modifyCpu hchange) fun _ _ hc => ?_
  cases hc
  exact h

theorem fault_of_fetch {size : Size} {addr : UInt32} {t : Trap}
    (h : fetch c.bus size addr = .error t) : p.fault (.trap t) := by
  unfold fetch at h
  split at h
  · cases h
  · cases h
    exact p.bus _ _

theorem fault_of_store {size : Size} {addr v : UInt32} {t : Trap} {bus : β}
    (h : store size addr v c.bus = .error t bus) : p.fault (.trap t) := by
  unfold store at h
  split at h
  · cases h
  · cases h
    exact p.bus _ _

theorem readMem (addr : UInt32) (size : Size) : Within p (readMem addr size) c := by
  unfold Within Exec.readMem
  cases hfetch : fetch c.bus size addr with
  | ok v => exact .refl
  | error t => exact ⟨.refl, fault_of_fetch hfetch⟩

theorem bind_readMem {addr : UInt32} {size : Size} {f : UInt32 → Exec β γ}
    (h : ∀ v, fetch c.bus size addr = .ok v → Within p (f v) c) :
    Within p (Exec.readMem addr size >>= f) c := by
  refine .bind (.readMem addr size) fun v c' hc => ?_
  unfold Exec.readMem at hc
  split at hc
  · rename_i hfetch
    cases hc
    exact h v hfetch
  · cases hc

theorem writeMem {addr : UInt32} {size : Size} (v : UInt32) (may : p.memory addr size) :
    Within p (writeMem addr size v) c := by
  refine .bind_readMem fun old hold => ?_
  unfold Within
  simp only [Bind.bind, EStateM.bind, storeMem]
  cases hstore : store size addr v c.bus with
  | ok _ bus => exact .single (.write may hold hstore)
  | error t bus => exact ⟨.single (.refused hstore), fault_of_store hstore⟩

theorem push (v : UInt32) (may : p.memory (c.cpu.sp - 4) .long) : Within p (push v) c := by
  refine .bind_cpu (.bind (.writeMem v may) fun _ c' _ => ?_)
  exact .modifyCpu (.addr _ p.stack)

theorem pull : Within p pull c := by
  refine .bind_cpu (.bind_readMem fun v _ => ?_)
  exact .bind_modifyCpu (.addr _ p.stack) (.pure v)

section Operand

variable {ea : Ea} {size : Size}

theorem stepped (hsteps : p.Steps ea) :
    c.Changes p { c with cpu := ea.stepped c.cpu size } := by
  cases ea with
  | postInc r => exact .single (.addr _ (hsteps r (.inl rfl)))
  | preDec r => exact .single (.addr _ (hsteps r (.inr rfl)))
  | _ => exact .refl

theorem bind_resolve {f : Location → Exec β γ} (hplace : ea.IsPlace) (hsteps : p.Steps ea)
    (h : ∀ loc, ea.At c.cpu size c.pcBase loc →
      Within p (f loc) { c with cpu := ea.stepped c.cpu size }) :
    Within p (resolve ea size >>= f) c := by
  obtain ⟨loc, hloc, hresolve⟩ := resolve_eq (c := c) size hplace
  refine .bind ?_ fun loc' c' hc => ?_
  · unfold Within
    rw [hresolve]
    exact stepped hsteps
  · rw [hresolve] at hc
    cases hc
    exact h loc hloc

theorem bind_read {loc : Location} {f : UInt32 → Exec β γ} {cpu : Cpu} {pcBase : UInt32}
    (hreadable : ea.IsReadable) (hloc : ea.At cpu size pcBase loc) {size' : Size}
    (h : ∀ v, Within p (f v) c) : Within p (read loc size' >>= f) c := by
  cases loc with
  | data r | addr r => exact h _
  | mem addr => exact .bind_readMem fun v _ => h v
  | imm v => exact h _
  | special reg =>
    obtain ⟨update, hloc⟩ := hloc
    cases ea with
    | special _ =>
      cases hloc
      cases reg with
      | sr | ccr | usp => exact h _
      | control _ | cache _ => exact hreadable.elim
    | _ => cases hloc

theorem bind_readEa {f : UInt32 → Exec β γ} (hreadable : ea.IsReadable) (hsteps : p.Steps ea)
    (h : ∀ v, Within p (f v) { c with cpu := ea.stepped c.cpu size }) :
    Within p (readEa ea size >>= f) c := by
  rw [readEa, bind_assoc]
  refine .bind_resolve hreadable.isPlace hsteps fun loc hloc => ?_
  exact .bind_read hreadable hloc h

theorem write {loc : Location} (v : UInt32) (may : p.Writes loc size) :
    Within p (write loc size v) c := by
  unfold Exec.write
  cases loc with
  | data r => exact .modifyCpu (.data _ may)
  | addr r => exact .modifyCpu (.addr _ may)
  | mem addr => exact .writeMem v may
  | imm _ => exact may.elim
  | special reg =>
    unfold Exec.writeSpecial
    cases reg with
    | sr => exact .modifyCpu (.system may (Cpu.d_setSr _ _) (Cpu.a_setSr _ _))
    | ccr => exact .flags (Cpu.agreesButCodes_setCcr _)
    | usp => exact .modifyCpu (.system may (Cpu.d_setUsp _ _) (Cpu.a_setUsp _ _))
    | control code =>
      refine .bind_cpu ?_
      unfold Cpu.setControl?
      cases hcode : ControlRegister.position? code with
      | none => exact .raise (may.2 hcode)
      | some i => exact .modifyCpu (.system may.1 rfl fun _ _ => rfl)
    | cache _ => exact may.elim

theorem writeEa (v : UInt32) (hplace : ea.IsPlace) (hsteps : p.Steps ea)
    (may : ∀ loc, ea.At c.cpu size c.pcBase loc → p.Writes loc size) :
    Within p (writeEa ea size v) c :=
  .bind_resolve hplace hsteps fun loc hloc => .write v (may loc hloc)

theorem modifyEa (f : UInt32 → UInt32) (hreadable : ea.IsReadable) (hsteps : p.Steps ea)
    (may : ∀ loc, ea.At c.cpu size c.pcBase loc → p.Writes loc size) :
    Within p (modifyEa ea size f) c := by
  refine .bind_resolve hreadable.isPlace hsteps fun loc hloc => ?_
  refine .bind_read hreadable hloc fun v => ?_
  exact .bind (.write _ (may loc hloc)) fun _ _ _ => .pure _

theorem bind_addressOf {f : UInt32 → Exec β γ} (hcontrol : Modes.control.contains ea.modes = true)
    (hne : ea.modes ≠ .none)
    (h : ∀ addr, ea.At c.cpu .long c.pcBase (.mem addr) → Within p (f addr) c) :
    Within p (addressOf ea >>= f) c := by
  rw [addressOf, bind_assoc]
  cases ea with
  | indirect _ | disp _ _ | index _ _ _ | absShort _ | absLong _ | pcDisp _ | pcIndex _ _ =>
    refine .bind_resolve trivial nofun fun loc hloc => ?_
    obtain ⟨update, hloc⟩ := hloc
    cases hloc
    exact h _ ⟨_, rfl⟩
  | regList _ | relative _ | regPair _ _ | special _ => exact absurd rfl hne
  | dataReg _ | addrReg _ | postInc _ | preDec _ | immediate _ =>
    rw [Ea.modes] at hcontrol
    exact absurd hcontrol (by decide)

end Operand

end Within

end Exec

end ColdFire
