import ColdFire.Proofs.Execution.PcBase
import ColdFire.Proofs.Execution.Undo

namespace ColdFire

variable {β : Type} [Bus β]

/-- A running machine stands at an instruction. -/
structure Machine.At (m : Machine β) (d : Decoded) : Prop where
  running : m.cpu.state = .running
  decodes : ∃ source cursor, WordSource.ofBus m.bus m.cpu.pc = .ok source ∧
    Registry.full.decode m.cpu.config.tier source .start = .ok (some d) cursor

/-- An instruction on a machine: the definition that it belongs to, and the state that it is
performed from. -/
structure Machine.Performs (m : Machine β) (d : Decoded) (x : Definition) (c : Context β) :
    Prop where
  listed : x ∈ Catalogue.all
  reads : ∃ s cursor, x.format.read x.mnemonic s .start = .ok (d.mnemonic, d.toOperands) cursor
  takes : x.operation.Takes d.toOperands
  dst : x.dstDemand.Meets d.dst
  cpu : c.cpu = m.cpu
  bus : c.bus = m.bus
  base : c.pcBase = m.cpu.pc + 2
  completes : x.privileged = false → ∀ c', Exec.perform x.operation d c = .ok () c' →
    Run.step .full m = .ok c'.cpu.state ⟨{ c'.cpu with pc := c'.continuation }, c'.bus⟩
  /-- What ends an instruction before it has written anything is all that happens. -/
  ends : x.privileged = false → ∀ fault c', Exec.perform x.operation d c = .error fault c' →
    c'.journal = c.journal → c'.bus = m.bus → Run.step .full m =
      match Run.delivered fault with
      | .exception e => Run.enter e (if e.stacksNextPc then c'.nextPc else m.cpu.pc) m
      | .trap t => .error t m

namespace Machine

variable {m : Machine β} {d : Decoded}

theorem performs_of_lookup {word : UInt32} {x : Entry} {cursor : Cursor}
    (running : m.cpu.state = .running) (hfetch : fetch m.bus .word m.cpu.pc = .ok word)
    (hlookup : Registry.full.lookup word.toUInt16 m.cpu.config.tier = some x)
    (hdecode : x.1.decode (.inMemory m.bus word.toUInt16 m.cpu.pc) .start = .ok d cursor) :
    m.Performs d x.1 (.ready m.cpu m.bus m.cpu.pc word.toUInt16 cursor) := by
  have hending (hpriv : x.1.privileged = false) :
      Run.ending .full m = Run.endingOf x.1 word.toUInt16 m :=
    Run.ending_of_lookup hfetch hlookup (by rw [hpriv]; rfl)
  exact {
    listed := (Registry.of_lookup_full hlookup).1
    reads := ⟨_, cursor, (Definition.read_of_decode hdecode).1⟩
    takes := Registry.takes_of_decode (s := .inMemory m.bus word.toUInt16 m.cpu.pc) hlookup hdecode
    dst := Registry.dst_meets_of_decode (s := .inMemory m.bus word.toUInt16 m.cpu.pc) hlookup
      hdecode
    cpu := rfl
    bus := rfl
    base := Exec.pcBase_ready hlookup hdecode m.cpu
    completes := fun hpriv c' hok => by
      rw [Run.step_of_running running, hending hpriv, Run.endingOf,
        Exec.execute_of_decode hdecode, hok]
      rfl
    ends := fun hpriv fault c' herror hjournal hbus => by
      rw [Run.step_of_running running, hending hpriv, Run.endingOf,
        Exec.execute_of_decode hdecode, herror]
      dsimp only
      rw [hjournal, hbus]
      dsimp only [Context.ready, Context.start, rollback, pure, EStateM.pure]
      cases Run.delivered fault with
      | exception e => rfl
      | trap t => rfl }

theorem At.lookup (h : m.At d) : ∃ word x cursor, fetch m.bus .word m.cpu.pc = .ok word ∧
    Registry.full.lookup word.toUInt16 m.cpu.config.tier = some x ∧
    x.1.decode (.inMemory m.bus word.toUInt16 m.cpu.pc) .start = .ok d cursor := by
  obtain ⟨source, cursor, hsource, hdecode⟩ := h.decodes
  unfold WordSource.ofBus at hsource
  obtain ⟨word, hfetch, rfl⟩ := except_map_eq_ok.1 hsource
  obtain ⟨x, hlookup, hdecode⟩ := Registry.of_decode_some hdecode
  exact ⟨word, x, cursor, hfetch, hlookup, hdecode⟩

theorem At.nextAddress_eq (h : m.At d) : d.nextAddress = m.cpu.pc + UInt32.ofNat d.length := by
  obtain ⟨word, x, cursor, -, -, hdecode⟩ := h.lookup
  rw [Decoded.nextAddress, (Definition.read_of_decode hdecode).2.1]
  rfl

theorem At.performs (h : m.At d) : ∃ x c, m.Performs d x c := by
  obtain ⟨word, x, cursor, hfetch, hlookup, hdecode⟩ := h.lookup
  exact ⟨x.1, _, performs_of_lookup h.running hfetch hlookup hdecode⟩

theorem at_of_lookup {word : UInt32} {x : Entry} {cursor : Cursor}
    (running : m.cpu.state = .running) (hfetch : fetch m.bus .word m.cpu.pc = .ok word)
    (hlookup : Registry.full.lookup word.toUInt16 m.cpu.config.tier = some x)
    (hdecode : x.1.decode (.inMemory m.bus word.toUInt16 m.cpu.pc) .start = .ok d cursor) :
    m.At d where
  running := running
  decodes := by
    refine ⟨.inMemory m.bus word.toUInt16 m.cpu.pc, cursor, ?_, ?_⟩
    · rw [WordSource.ofBus, hfetch]
      rfl
    · rw [Registry.decode_of_lookup (s := .inMemory m.bus word.toUInt16 m.cpu.pc) hlookup, hdecode]

variable {x : Definition} {c : Context β}

theorem Performs.step_eq {c' : Context β} (h : m.Performs d x c) (hpriv : x.privileged = false)
    (hperform : Exec.perform x.operation d c = .ok () c') (hstate : c'.cpu.state = .running) :
    Run.step .full m = .ok .running ⟨{ c'.cpu with pc := c'.continuation }, c'.bus⟩ :=
  (h.completes hpriv c' hperform).trans (congrArg (EStateM.Result.ok · _) hstate)

theorem runs_of_lookup {word : UInt32} {x : Entry} {cursor : Cursor} {c' : Context β}
    (running : m.cpu.state = .running) (hfetch : fetch m.bus .word m.cpu.pc = .ok word)
    (hlookup : Registry.full.lookup word.toUInt16 m.cpu.config.tier = some x)
    (hdecode : x.1.decode (.inMemory m.bus word.toUInt16 m.cpu.pc) .start = .ok d cursor)
    (hpriv : x.1.privileged = false)
    (hperform : Exec.perform x.1.operation d
      (.ready m.cpu m.bus m.cpu.pc word.toUInt16 cursor) = .ok () c')
    (hstate : c'.cpu.state = .running) :
    m.At d ∧ Run.step .full m = .ok .running ⟨{ c'.cpu with pc := c'.continuation }, c'.bus⟩ :=
  ⟨at_of_lookup running hfetch hlookup hdecode,
    (performs_of_lookup running hfetch hlookup hdecode).step_eq hpriv hperform hstate⟩

theorem Performs.named (h : m.Performs d x c) : d.mnemonic ∈ x.mnemonic :: x.format.ownNames := by
  obtain ⟨s, cursor, hread⟩ := h.reads
  rcases Format.read_name hread with hname | hname
  · exact hname ▸ List.mem_cons_self
  · exact List.mem_cons_of_mem _ hname

end Machine

/-- The operation may raise an exception, whatever its operands are. -/
def Operation.raises : Operation → Bool
  | illegal | trap | divideLong | divideWord _ | returnFromException => true
  | _ => false

def Demand.refusesSpecial : Demand → Bool
  | absent | modes _ | list => true
  | anything | special _ => false

/-- An instruction of the definition enters no exception, whatever its operands hold. -/
def Definition.isQuiet (x : Definition) : Bool :=
  !x.privileged && !x.operation.raises && x.dstDemand.refusesSpecial

theorem Definition.of_isQuiet {x : Definition} (h : x.isQuiet = true) :
    x.privileged = false ∧ x.operation.raises = false ∧ x.dstDemand.refusesSpecial = true := by
  unfold isQuiet at h
  rw [Bool.and_eq_true, Bool.and_eq_true, Bool.not_eq_true', Bool.not_eq_true'] at h
  exact ⟨h.1.1, h.1.2, h.2⟩

namespace Demand

theorem ne_special_of_meets {demand : Demand} {o : Option Ea} (h : demand.refusesSpecial = true)
    (hmeets : demand.Meets o) (reg : SpecialReg) : o ≠ some (.special reg) := by
  rintro rfl
  cases demand with
  | anything | special _ => cases h
  | absent => cases hmeets
  | modes allowed =>
    obtain ⟨_, ⟨⟩, -, hne⟩ := hmeets
    exact hne rfl
  | list =>
    obtain ⟨_, ⟨⟩⟩ := hmeets

end Demand

theorem Decoded.not_permit_exception {d : Decoded} {op : Operation} {cpu : Cpu} {pcBase : UInt32}
    {e : Exception} (hraises : op.raises = false) (hspecial : ∀ reg, d.dst ≠ some (.special reg)) :
    ¬ (d.permit op cpu pcBase).fault (.exception e) := by
  intro h
  cases e with
  | illegalInstruction =>
    rcases h with rfl | ⟨code, hdst, -⟩
    · cases hraises
    · exact hspecial _ hdst
  | divideByZero =>
    rcases h with rfl | ⟨signed, rfl⟩
    · cases hraises
    · cases hraises
  | formatError =>
    cases h
    cases hraises
  | trap n =>
    cases h
    cases hraises
  | _ => exact h

/-- A step from a machine that stands at an instruction completed: the operation was performed, and
what it left is the machine after the step. -/
structure Machine.Completes (m : Machine β) (d : Decoded) (m' : Machine β) (x : Definition)
    (c c' : Context β) : Prop extends m.Performs d x c where
  next : c.nextPc = d.nextAddress
  jump : c.jump = none
  performed : Exec.perform x.operation d c = .ok () c'
  machine : m' = ⟨{ c'.cpu with pc := c'.continuation }, c'.bus⟩

namespace Machine

variable {m m' : Machine β} {d : Decoded} {state : RunState}

/-- A step at an instruction that enters no exception completes the instruction. -/
theorem At.completes (h : m.At d) (hstep : Run.step .full m = .ok state m')
    (hquiet : ∀ x ∈ Catalogue.all, d.mnemonic ∈ x.mnemonic :: x.format.ownNames →
      x.isQuiet = true) : ∃ x c c', m.Completes d m' x c c' := by
  obtain ⟨word, x, cursor, hfetch, hlookup, hdecode⟩ := h.lookup
  have hperforms := performs_of_lookup h.running hfetch hlookup hdecode
  obtain ⟨hpriv, hraises, hdst⟩ :=
    Definition.of_isQuiet (hquiet x.1 hperforms.listed hperforms.named)
  have hending : Run.ending .full m = Run.endingOf x.1 word.toUInt16 m :=
    Run.ending_of_lookup hfetch hlookup (by rw [hpriv]; rfl)
  have hplain : ∀ e faultPc bus, Run.ending .full m ≠ .raised e faultPc bus := by
    intro e faultPc bus hraised
    have hfault := Run.fault_of_raised hlookup hdecode (hending.symm.trans hraised)
    have hspecial := Demand.ne_special_of_meets hdst hperforms.dst
    exact Decoded.not_permit_exception hraises hspecial hfault
  obtain ⟨c', hcompleted, hm'⟩ := Run.completed_of_step h.running hplain hstep
  rw [hending] at hcompleted
  exact ⟨x.1, _, c', hperforms, Exec.nextPc_ready hdecode _, rfl,
    Run.perform_of_completed hdecode hcompleted, hm'⟩

end Machine

def Location.Holds (loc : Location) (cpu : Cpu) (bus : β) (size : Size) (v : UInt32) : Prop :=
  match loc with
  | .data r => cpu.dataReg r &&& size.mask = v
  | .addr r => cpu.addrReg r &&& size.mask = v
  | .mem a => Bus.read bus size a = .ok v
  | .imm w => w &&& size.mask = v
  | .special _ => False

def Ea.Holds (ea : Ea) (cpu : Cpu) (bus : β) (size : Size) (pcBase v : UInt32) : Prop :=
  ∃ loc, ea.At cpu size pcBase loc ∧ loc.Holds cpu bus size v

theorem Decoded.afterSource_eq (d : Decoded) (cpu : Cpu) :
    ∃ a, d.afterSource cpu = { cpu with a := a } := by
  unfold Decoded.afterSource
  cases d.src with
  | none => exact ⟨_, rfl⟩
  | some ea =>
    cases ea with
    | postInc _ | preDec _ => exact ⟨_, rfl⟩
    | _ => exact ⟨_, rfl⟩

/-- The source of an instruction holds a value when a machine stands at the instruction. -/
def Decoded.SourceHolds (d : Decoded) (m : Machine β) (v : UInt32) : Prop :=
  ∃ src, d.src = some src ∧ src.Holds m.cpu m.bus d.sizeOrLong (m.cpu.pc + 2) v

section Unique

variable {ea : Ea} {cpu : Cpu} {bus : β} {size : Size} {pcBase v w : UInt32} {loc loc' : Location}

omit [Bus β] in
theorem Ea.At.unique (h : ea.At cpu size pcBase loc) (h' : ea.At cpu size pcBase loc') :
    loc = loc' := by
  obtain ⟨_, h⟩ := h
  obtain ⟨_, h'⟩ := h'
  cases h.symm.trans h'
  rfl

theorem Location.Holds.unique (h : loc.Holds cpu bus size v) (h' : loc.Holds cpu bus size w) :
    v = w := by
  cases loc with
  | data _ | addr _ | imm _ => exact h.symm.trans h'
  | mem _ => exact Except.ok.inj (h.symm.trans h')
  | special _ => exact h.elim

theorem Ea.Holds.unique (h : ea.Holds cpu bus size pcBase v) (h' : ea.Holds cpu bus size pcBase w) :
    v = w := by
  obtain ⟨loc, hloc, hv⟩ := h
  obtain ⟨loc', hloc', hw⟩ := h'
  cases hloc.unique hloc'
  exact hv.unique hw

theorem Decoded.SourceHolds.unique {d : Decoded} {m : Machine β} (h : d.SourceHolds m v)
    (h' : d.SourceHolds m w) : v = w := by
  obtain ⟨src, hsrc, hv⟩ := h
  obtain ⟨src', hsrc', hw⟩ := h'
  cases hsrc.symm.trans hsrc'
  exact hv.unique hw

end Unique

namespace Exec

variable {ea : Ea} {size : Size} {c c' : Context β} {addr v : UInt32}

theorem readMem_eq_ok : readMem addr size c = .ok v c' ↔
    Bus.read c.bus size addr = .ok v ∧ c' = c := by
  unfold readMem
  rw [← fetch_eq_ok]
  cases fetch c.bus size addr with
  | ok w => simp [eq_comm]
  | error t => simp

theorem of_writeMem (h : writeMem addr size v c = .ok () c') : ∃ bus journal,
    Bus.write size addr v c.bus = .ok () bus ∧
      c' = { c with bus := bus, journal := journal } := by
  simp only [writeMem, bind_eq_ok, readMem_eq_ok] at h
  obtain ⟨old, _, ⟨-, rfl⟩, _, c₁, hstore, hnote⟩ := h
  cases hnote
  unfold storeMem at hstore
  dsimp only at hstore
  split at hstore
  · rename_i bus hbus
    cases hstore
    exact ⟨bus, _, store_eq_ok.1 hbus, rfl⟩
  · cases hstore

theorem of_push (h : push v c = .ok () c') : ∃ bus journal,
    Bus.write .long (c.cpu.sp - 4) v c.bus = .ok () bus ∧
      c' = { c with cpu := c.cpu.setSp (c.cpu.sp - 4), bus := bus, journal := journal } := by
  rw [push, bind_cpu, bind_eq_ok] at h
  obtain ⟨_, c₁, hwrite, h⟩ := h
  obtain ⟨bus, journal, hbus, rfl⟩ := of_writeMem hwrite
  cases h
  exact ⟨bus, journal, hbus, rfl⟩

theorem of_pull (h : pull c = .ok v c') : Bus.read c.bus .long c.cpu.sp = .ok v ∧
    c' = { c with cpu := c.cpu.setSp (c.cpu.sp + 4) } := by
  simp only [pull, bind_cpu, bind_eq_ok, readMem_eq_ok] at h
  obtain ⟨w, _, ⟨hread, rfl⟩, _, _, hmodify, h⟩ := h
  cases hmodify
  cases h
  exact ⟨hread, rfl⟩

/-- An operand that has a mode is read after its address register has stepped. Reading it fails with
the memory it is in, or not at all. -/
theorem readEa_cases (hmodes : ea.modes ≠ .none) (size : Size) (c : Context β) :
    (∃ v, ea.Holds c.cpu c.bus size c.pcBase v ∧
      readEa ea size c = .ok v { c with cpu := ea.stepped c.cpu size }) ∨
    ∃ addr cause, (∀ v, ¬ ea.Holds c.cpu c.bus size c.pcBase v) ∧
      readEa ea size c =
        .error (.trap (.bus addr cause)) { c with cpu := ea.stepped c.cpu size } := by
  obtain ⟨loc, hloc, hresolve⟩ := resolve_eq (c := c) size (Ea.IsPlace.of_modes hmodes)
  have hread : readEa ea size c = read loc size { c with cpu := ea.stepped c.cpu size } := by
    rw [readEa, bind_of_ok hresolve]
  rw [hread]
  -- a register location stands for the register operand alone, which is always there
  obtain ⟨update, hlocate⟩ := id hloc
  cases loc with
  | data r =>
    cases ea with
    | dataReg _ =>
      cases hlocate
      exact .inl ⟨_, ⟨_, hloc, rfl⟩, rfl⟩
    | _ => cases hlocate
  | addr r =>
    cases ea with
    | addrReg _ =>
      cases hlocate
      exact .inl ⟨_, ⟨_, hloc, rfl⟩, rfl⟩
    | _ => cases hlocate
  | imm w => exact .inl ⟨_, ⟨_, hloc, rfl⟩, rfl⟩
  | special reg =>
    cases ea with
    | special _ => exact absurd rfl hmodes
    | _ => cases hlocate
  | mem a =>
    unfold read readMem
    cases hbus : Bus.read c.bus size a with
    | ok v =>
      refine .inl ⟨v, ⟨_, hloc, hbus⟩, ?_⟩
      dsimp only
      rw [fetch_eq_ok.2 hbus]
    | error cause =>
      refine .inr ⟨a, cause, ?_, ?_⟩
      · rintro v ⟨loc, hloc', hv⟩
        cases hloc.unique hloc'
        cases hbus.symm.trans hv
      · dsimp only
        rw [fetch, hbus]

omit [Bus β] in
/-- An operand that control may go to has an address, and no register steps when it is found. -/
theorem addressOf_eq (h : (Demand.modes .control).Meets (some ea)) (c : Context β) :
    ∃ addr, ea.At c.cpu .long c.pcBase (.mem addr) ∧ addressOf ea c = .ok addr c := by
  obtain ⟨_, ⟨⟩, hin, hne⟩ := h
  cases ea with
  | indirect _ | disp _ _ | index _ _ _ | absShort _ | absLong _ | pcDisp _ | pcIndex _ _ =>
    exact ⟨_, ⟨_, rfl⟩, rfl⟩
  | regList _ | relative _ | regPair _ _ | special _ => exact absurd rfl hne
  | dataReg _ | addrReg _ | postInc _ | preDec _ | immediate _ =>
    rw [Ea.modes] at hin
    exact absurd hin (by decide)

end Exec

namespace Machine.Performs

variable {m : Machine β} {d : Decoded} {x : Definition} {c : Context β} {src : Ea}

/-- An instruction that reads its source first either finds a value there, or ends with nothing
done. -/
theorem source_cases (h : m.Performs d x c) (hpriv : x.privileged = false)
    (hsrc : d.src = some src) (hmodes : src.modes ≠ .none)
    (hfirst : ∀ fault c', Exec.readEa src d.sizeOrLong c = .error fault c' →
      Exec.perform x.operation d c = .error fault c') :
    (∃ b, d.SourceHolds m b ∧ Exec.readEa src d.sizeOrLong c =
      .ok b { c with cpu := d.afterSource m.cpu }) ∨
    (∀ b, ¬ d.SourceHolds m b) ∧ ∃ t, Run.step .full m = .error t m := by
  rw [Decoded.afterSource_of_src hsrc, ← h.cpu]
  have hholds {b : UInt32} : d.SourceHolds m b ↔
      src.Holds c.cpu c.bus d.sizeOrLong c.pcBase b := by
    rw [h.cpu, h.bus, h.base, Decoded.SourceHolds, hsrc]
    simp
  rcases Exec.readEa_cases hmodes d.sizeOrLong c with ⟨b, hb, hread⟩ | ⟨addr, cause, hnone, hread⟩
  · exact .inl ⟨b, hholds.2 hb, hread⟩
  · refine .inr ⟨fun b hb => hnone b (hholds.1 hb), .bus addr cause, ?_⟩
    rw [h.ends hpriv _ _ (hfirst _ _ hread) rfl h.bus]
    rfl

end Machine.Performs

end ColdFire
