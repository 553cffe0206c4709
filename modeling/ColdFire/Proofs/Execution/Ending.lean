import ColdFire.Proofs.Execution.Entry
import ColdFire.Proofs.Execution.Frame
import ColdFire.Proofs.Execution.Operations
import ColdFire.Proofs.Registry.Decoded

namespace ColdFire

variable {β : Type}

/-- How an instruction ends. Unless it completes, memory is what it was taken back to. -/
inductive Ending (β : Type) where
  | completed (c : Context β)
  | raised (e : Exception) (faultPc : UInt32) (bus : β)
  | failed (t : Trap) (bus : β)

namespace Ending

def completed? : Ending β → Option (Context β)
  | completed c => some c
  | _ => none

def raised? : Ending β → Option (Exception × UInt32)
  | raised e faultPc _ => some (e, faultPc)
  | _ => none

def failed? : Ending β → Option Trap
  | failed t _ => some t
  | _ => none

variable {ending : Ending β}

theorem eq_completed {p : Context β → Bool} (h : ending.completed?.any p = true) :
    ∃ c, ending = .completed c ∧ p c = true := by
  cases ending with
  | completed c => exact ⟨c, rfl, h⟩
  | _ => cases h

theorem eq_raised {e : Exception} {faultPc : UInt32} (h : ending.raised? = some (e, faultPc)) :
    ∃ bus, ending = .raised e faultPc bus := by
  cases ending with
  | raised e faultPc bus =>
    cases h
    exact ⟨bus, rfl⟩
  | _ => cases h

theorem eq_failed (h : ending.failed?.isSome = true) : ∃ t bus, ending = .failed t bus := by
  cases ending with
  | failed t bus => exact ⟨t, bus, rfl⟩
  | _ => cases h

end Ending

/-- Unless the instruction completes, memory is as it was, and its exception returns to the
instruction or, after a trap, behind it. -/
def Ending.Restores (m : Machine β) : Ending β → Prop
  | .completed _ => True
  | .raised e faultPc bus =>
    bus = m.bus ∧ faultPc = if e.stacksNextPc then m.cpu.pc + 2 else m.cpu.pc
  | .failed _ bus => bus = m.bus

variable [Bus β]

namespace Run

def endingOf (d : Definition) (opcode : UInt16) (m : Machine β) : Ending β :=
  match Exec.execute d (.start m.cpu m.bus m.cpu.pc opcode) with
  | .ok _ c => .completed c
  | .error fault c =>
    match rollback c.journal c.bus with
    | .error t bus => .failed t bus
    | .ok _ bus =>
      match delivered fault with
      | .exception e => .raised e (if e.stacksNextPc then c.nextPc else m.cpu.pc) bus
      | .trap t => .failed t bus

/-- How the instruction at the program counter ends. -/
def ending (r : Registry) (m : Machine β) : Ending β :=
  match fetch m.bus .word m.cpu.pc with
  | .error t => .failed t m.bus
  | .ok word =>
    match r.lookup word.toUInt16 m.cpu.config.tier with
    | none => .raised (unclaimed word.toUInt16) m.cpu.pc m.bus
    | some (d, _) =>
      if d.privileged && !m.cpu.isSupervisor then .raised .privilegeViolation m.cpu.pc m.bus
      else endingOf d word.toUInt16 m

/-- What a step makes of an ending. -/
def conclude (cpu : Cpu) : Ending β → EStateM.Result Trap (Machine β) RunState
  | .completed c => .ok c.cpu.state ⟨{ c.cpu with pc := c.continuation }, c.bus⟩
  | .raised e faultPc bus => enter e faultPc ⟨cpu, bus⟩
  | .failed t bus => .error t ⟨cpu, bus⟩

end Run

namespace Catalogue

theorem format_of_trap : ∀ d ∈ all, d.operation = .trap → d.format = .vector :=
  List.all_iff_forall_prop.mp rfl

end Catalogue

def Context.ready (cpu : Cpu) (bus : β) (pc : UInt32) (opcode : UInt16) (cursor : Cursor) :
    Context β :=
  { start cpu bus pc opcode with cursor := cursor }

namespace Exec

variable {d : Definition} {decoded : Decoded} {cpu : Cpu} {bus : β} {pc : UInt32} {opcode : UInt16}
  {cursor : Cursor} {t : Trap}

theorem execute_of_decode (h : d.decode (.inMemory bus opcode pc) .start = .ok decoded cursor) :
    execute d (.start cpu bus pc opcode) =
      perform d.operation decoded (.ready cpu bus pc opcode cursor) := by
  simp only [execute, bind, EStateM.bind, decode, Context.start, Context.ready, h]

theorem execute_of_decode_error (h : d.decode (.inMemory bus opcode pc) .start = .error t cursor) :
    execute d (.start cpu bus pc opcode) =
      .error (.trap t) (.ready cpu bus pc opcode cursor) := by
  simp only [execute, bind, EStateM.bind, decode, Context.start, Context.ready, h]

theorem nextPc_ready (h : d.decode (.inMemory bus opcode pc) .start = .ok decoded cursor)
    (cpu : Cpu) : (Context.ready cpu bus pc opcode cursor).nextPc = decoded.nextAddress := by
  obtain ⟨-, haddress, hwords⟩ := Definition.read_of_decode h
  rw [Decoded.nextAddress, haddress, Decoded.length, hwords, UInt32.ofNat_add, ← UInt32.add_assoc]
  rfl

/-- A decoded instruction of the instruction set does no more than it permits. -/
theorem within_of_decode {x : Entry} {tier : Tier} (cpu : Cpu)
    (hlookup : Registry.full.lookup opcode tier = some x)
    (h : x.1.decode (.inMemory bus opcode pc) .start = .ok decoded cursor) :
    Within (decoded.permit x.1.operation cpu (Context.ready cpu bus pc opcode cursor).pcBase)
      (perform x.1.operation decoded) (.ready cpu bus pc opcode cursor) := by
  apply Within.perform
  exact Registry.takes_of_decode (s := .inMemory bus opcode pc) hlookup h

/-- An instruction that ends early can be taken back. If a trap ended it, it has no words behind its
opcode word. -/
theorem undoes_of_error [LawfulBus β] {x : Entry} {tier : Tier} {fault : Fault} {c : Context β}
    (hlookup : Registry.full.lookup opcode tier = some x)
    (h : execute x.1 (.start cpu bus pc opcode) = .error fault c) :
    c.Undoes bus ∧ ∀ n, fault = .exception (.trap n) → c.nextPc = pc + 2 := by
  cases hdecode : x.1.decode (.inMemory bus opcode pc) .start with
  | error t cursor =>
    rw [execute_of_decode_error hdecode] at h
    cases h
    exact ⟨rfl, nofun⟩
  | ok decoded cursor =>
    rw [execute_of_decode hdecode] at h
    obtain ⟨hchanges, hfault⟩ := (within_of_decode cpu hlookup hdecode).of_error h
    refine ⟨hchanges.undoes rfl, ?_⟩
    rintro n rfl
    have hop : x.1.operation = .trap := hfault
    have hformat := Catalogue.format_of_trap x.1
      (Registry.mem_full (Registry.of_lookup hlookup).1) hop
    rw [Definition.decode, hformat] at hdecode
    cases hdecode
    obtain ⟨hpc, -, hcursor⟩ := hchanges.place
    rw [Context.nextPc, hpc, hcursor]
    exact UInt32.add_zero _

end Exec

theorem Exception.of_stacksNextPc {e : Exception} (h : e.stacksNextPc = true) :
    ∃ n, e = .trap n := by
  cases e with
  | trap n => exact ⟨n, rfl⟩
  | _ => cases h

namespace Run

variable {m : Machine β} {r : Registry}

theorem step_of_not_running (h : m.cpu.state ≠ .running) : step r m = .ok m.cpu.state m := by
  simp only [step, bind, EStateM.bind, Run.cpu, if_pos h]
  rfl

theorem ending_of_lookup {word : UInt32} {x : Entry}
    (hfetch : fetch m.bus .word m.cpu.pc = .ok word)
    (hlookup : r.lookup word.toUInt16 m.cpu.config.tier = some x)
    (hpriv : (x.1.privileged && !m.cpu.isSupervisor) = false) :
    ending r m = endingOf x.1 word.toUInt16 m := by
  unfold ending
  rw [hfetch]
  dsimp only
  rw [hlookup]
  dsimp only
  rw [hpriv]
  rfl

theorem execute_eq {d : Definition} {opcode : UInt16} :
    EStateM.bind (execute d opcode) (fun _ => EStateM.bind Run.cpu fun cpu => pure cpu.state) m =
      conclude m.cpu (endingOf d opcode m) := by
  unfold endingOf
  simp only [EStateM.bind, execute]
  cases Exec.execute d (.start m.cpu m.bus m.cpu.pc opcode) with
  | ok u c => rfl
  | error fault c =>
    dsimp only
    cases rollback c.journal c.bus with
    | error t bus => rfl
    | ok u bus =>
      dsimp only
      cases delivered fault with
      | exception e => rfl
      | trap t => rfl

/-- A step of a running processor concludes the ending of its instruction. -/
theorem step_of_running (running : m.cpu.state = .running) :
    step r m = conclude m.cpu (ending r m) := by
  unfold step ending
  simp only [bind, EStateM.bind, Run.cpu, running, ne_eq, not_true_eq_false, if_false, readMem]
  cases fetch m.bus .word m.cpu.pc with
  | error t => rfl
  | ok word =>
    dsimp only
    cases r.lookup word.toUInt16 m.cpu.config.tier with
    | none => rfl
    | some x =>
      dsimp only
      split
      · rfl
      · exact execute_eq

theorem completed_of_step {state : RunState} {m' : Machine β} (running : m.cpu.state = .running)
    (plain : ∀ e faultPc bus, ending r m ≠ .raised e faultPc bus) (h : step r m = .ok state m') :
    ∃ c, ending r m = .completed c ∧ m' = ⟨{ c.cpu with pc := c.continuation }, c.bus⟩ := by
  rw [step_of_running running] at h
  cases hending : ending r m with
  | completed c =>
    rw [hending] at h
    cases h
    exact ⟨c, rfl, rfl⟩
  | raised e faultPc bus => exact absurd hending (plain e faultPc bus)
  | failed t bus =>
    rw [hending] at h
    cases h

theorem eq_of_delivered {fault : Fault} {e : Exception} (h : delivered fault = .exception e)
    (hne : e ≠ .illegalInstruction) : fault = .exception e := by
  unfold delivered at h
  split at h
  · cases h
    exact absurd rfl hne
  · exact h

theorem endingOf_restores [LawfulBus β] {x : Entry} {tier : Tier} {opcode : UInt16}
    (hlookup : Registry.full.lookup opcode tier = some x) :
    (endingOf x.1 opcode m).Restores m := by
  unfold endingOf
  split
  · trivial
  · rename_i fault c hexec
    obtain ⟨hundo, htrap⟩ := Exec.undoes_of_error hlookup hexec
    unfold Context.Undoes at hundo
    rw [hundo]
    dsimp only
    split
    · rename_i e hdelivered
      refine ⟨rfl, ?_⟩
      split
      · rename_i hnext
        obtain ⟨n, rfl⟩ := Exception.of_stacksNextPc hnext
        exact htrap n (eq_of_delivered hdelivered nofun)
      · rfl
    · rfl

theorem ending_restores [LawfulBus β] (m : Machine β) : (ending .full m).Restores m := by
  unfold ending
  split
  · rfl
  · split
    · refine ⟨rfl, ?_⟩
      unfold unclaimed
      split <;> rfl
    · rename_i hlookup
      split
      · exact ⟨rfl, rfl⟩
      · have hrestores := endingOf_restores (m := m) hlookup
        exact hrestores

section Decoded

variable {x : Entry} {tier : Tier} {opcode : UInt16} {decoded : Decoded} {cursor : Cursor}
  {t : Trap} {c : Context β} {e : Exception} {faultPc : UInt32} {bus : β}

theorem endingOf_of_decode_error
    (h : x.1.decode (.inMemory m.bus opcode m.cpu.pc) .start = .error t cursor) :
    endingOf x.1 opcode m =
      match delivered (.trap t) with
      | .exception e =>
        .raised e (if e.stacksNextPc then (Context.ready m.cpu m.bus m.cpu.pc opcode cursor).nextPc
          else m.cpu.pc) m.bus
      | .trap t => .failed t m.bus := by
  rw [endingOf, Exec.execute_of_decode_error h]
  rfl

theorem execute_of_completed {d : Definition} (h : endingOf d opcode m = .completed c) :
    Exec.execute d (.start m.cpu m.bus m.cpu.pc opcode) = .ok () c := by
  unfold endingOf at h
  split at h
  · rename_i hexec
    cases h
    exact hexec
  · split at h
    · cases h
    · split at h <;> cases h

theorem perform_of_completed
    (hdecode : x.1.decode (.inMemory m.bus opcode m.cpu.pc) .start = .ok decoded cursor)
    (h : endingOf x.1 opcode m = .completed c) :
    Exec.perform x.1.operation decoded (.ready m.cpu m.bus m.cpu.pc opcode cursor) = .ok () c := by
  rw [← Exec.execute_of_decode hdecode]
  exact execute_of_completed h

theorem changes_of_completed (hlookup : Registry.full.lookup opcode tier = some x)
    (hdecode : x.1.decode (.inMemory m.bus opcode m.cpu.pc) .start = .ok decoded cursor)
    (h : endingOf x.1 opcode m = .completed c) :
    (Context.ready m.cpu m.bus m.cpu.pc opcode cursor).Changes
      (decoded.permit x.1.operation m.cpu
        (Context.ready m.cpu m.bus m.cpu.pc opcode cursor).pcBase) c :=
  (Exec.within_of_decode m.cpu hlookup hdecode).of_ok (perform_of_completed hdecode h)

/-- An instruction that was decoded raises no other exception than it permits. -/
theorem fault_of_raised (hlookup : Registry.full.lookup opcode tier = some x)
    (hdecode : x.1.decode (.inMemory m.bus opcode m.cpu.pc) .start = .ok decoded cursor)
    (h : endingOf x.1 opcode m = .raised e faultPc bus) :
    (decoded.permit x.1.operation m.cpu
      (Context.ready m.cpu m.bus m.cpu.pc opcode cursor).pcBase).fault (.exception e) := by
  unfold endingOf at h
  rw [Exec.execute_of_decode hdecode] at h
  split at h
  · cases h
  · rename_i fault c hperform
    obtain ⟨-, hfault⟩ := (Exec.within_of_decode m.cpu hlookup hdecode).of_error hperform
    split at h
    · cases h
    · split at h
      · rename_i hdelivered
        cases h
        unfold delivered at hdelivered
        split at hdelivered
        · exact hfault.elim
        · cases hdelivered
          exact hfault
      · cases h

theorem of_completed (h : ending .full m = .completed c) :
    ∃ word x decoded cursor, fetch m.bus .word m.cpu.pc = .ok word ∧
      Registry.full.lookup word.toUInt16 m.cpu.config.tier = some x ∧
      (x.1.privileged && !m.cpu.isSupervisor) = false ∧
      x.1.decode (.inMemory m.bus word.toUInt16 m.cpu.pc) .start = .ok decoded cursor ∧
      endingOf x.1 word.toUInt16 m = .completed c := by
  unfold ending at h
  split at h
  · cases h
  · rename_i word hfetch
    split at h
    · cases h
    · rename_i d i hlookup
      split at h
      · cases h
      · rename_i hpriv
        cases hdecode : d.decode (.inMemory m.bus word.toUInt16 m.cpu.pc) .start with
        | error t cursor =>
          rw [endingOf_of_decode_error (x := (d, i)) hdecode] at h
          split at h <;> cases h
        | ok decoded cursor =>
          exact ⟨word, (d, i), decoded, cursor, hfetch, hlookup, Bool.eq_false_iff.2 hpriv,
            hdecode, h⟩

end Decoded

end Run

end ColdFire
