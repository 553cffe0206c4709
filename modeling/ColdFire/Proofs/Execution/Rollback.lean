import ColdFire.Proofs.Execution.Undo

namespace ColdFire

variable {α γ β : Type}

namespace Exec

/-- The context that a computation leaves behind, also when it fails. -/
def final (x : Exec β α) (c : Context β) : Context β :=
  match x c with
  | .ok _ c' => c'
  | .error _ c' => c'

variable [Bus β]

/-- Replaces an operand by what a computation makes of it. The computation may itself write. -/
def modifyEaBy (ea : Ea) (size : Size) (f : UInt32 → Exec β UInt32) : Exec β UInt32 := do
  let loc ← resolve ea size
  let v ← f (← read loc size)
  write loc size v
  return v

theorem modifyEaBy_pure (ea : Ea) (size : Size) (f : UInt32 → UInt32) :
    modifyEaBy ea size (fun v => pure (f v) : UInt32 → Exec β UInt32) = modifyEa ea size f := rfl

/-- What could be taken back before a computation can be taken back after it. -/
def Undoable (x : Exec β α) : Prop := ∀ c b, c.Undoes b → (x.final c).Undoes b

namespace Undoable

theorem of_frame {x : Exec β α}
    (h : ∀ c, (x.final c).bus = c.bus ∧ (x.final c).journal = c.journal) : Undoable x := by
  intro c b hc
  obtain ⟨hbus, hjournal⟩ := h c
  unfold Context.Undoes
  rw [hbus, hjournal]
  exact hc

theorem bind {x : Exec β α} {f : α → Exec β γ} (hx : Undoable x) (hf : ∀ a, Undoable (f a)) :
    Undoable (x >>= f) := by
  intro c b hc
  have hfirst := hx c b hc
  unfold final at *
  simp only [Bind.bind, EStateM.bind]
  cases hrun : x c with
  | error fault c' =>
    rw [hrun] at hfirst
    exact hfirst
  | ok a c' =>
    rw [hrun] at hfirst
    exact hf a c' b hfirst

theorem pure (a : α) : Undoable (Pure.pure a : Exec β α) := of_frame fun _ => ⟨rfl, rfl⟩

theorem cpu : Undoable (Exec.cpu : Exec β Cpu) := of_frame fun _ => ⟨rfl, rfl⟩

theorem modifyCpu (f : Cpu → Cpu) : Undoable (Exec.modifyCpu f : Exec β Unit) :=
  of_frame fun _ => ⟨rfl, rfl⟩

theorem throw (fault : Fault) : Undoable (MonadExcept.throw fault : Exec β α) :=
  of_frame fun _ => ⟨rfl, rfl⟩

theorem resolve (ea : Ea) (size : Size) : Undoable (Exec.resolve ea size : Exec β Location) := by
  refine of_frame fun c => ?_
  unfold final Exec.resolve
  cases ea.locate c.cpu size c.pcBase with
  | error e => exact ⟨rfl, rfl⟩
  | ok r =>
    obtain ⟨loc, update⟩ := r
    cases update <;> exact ⟨rfl, rfl⟩

theorem readMem (addr : UInt32) (size : Size) : Undoable (Exec.readMem addr size : Exec β UInt32) := by
  refine of_frame fun c => ?_
  unfold final Exec.readMem
  cases fetch c.bus size addr <;> exact ⟨rfl, rfl⟩

theorem readSpecial (reg : SpecialReg) : Undoable (Exec.readSpecial reg : Exec β UInt32) := by
  refine bind cpu fun cpu => ?_
  cases reg with
  | sr | ccr | usp => exact pure _
  | control code =>
    dsimp only
    split
    · exact pure _
    · exact throw _
  | cache _ => exact throw _

theorem writeSpecial (reg : SpecialReg) (v : UInt32) :
    Undoable (Exec.writeSpecial reg v : Exec β Unit) := by
  cases reg with
  | sr | ccr | usp => exact of_frame fun _ => ⟨rfl, rfl⟩
  | control code =>
    refine bind cpu fun cpu => ?_
    split
    · exact modifyCpu _
    · exact throw _
  | cache _ => exact throw _

theorem read (loc : Location) (size : Size) : Undoable (Exec.read loc size : Exec β UInt32) := by
  cases loc with
  | data r | addr r => exact bind cpu fun _ => pure _
  | mem addr => exact readMem addr size
  | imm v => exact pure _
  | special reg => exact readSpecial reg

section Write

variable [LawfulBus β]

/-- A write is taken back first, and one that fails is not there to be taken back. -/
theorem writeMem (addr : UInt32) (size : Size) (v : UInt32) :
    Undoable (Exec.writeMem addr size v : Exec β Unit) := by
  intro c b hc
  unfold Context.Undoes at hc ⊢
  simp only [final, Exec.writeMem, Exec.readMem, Exec.storeMem, note, Bind.bind, EStateM.bind]
  cases hfetch : fetch c.bus size addr with
  | error t => exact hc
  | ok old =>
    dsimp only
    cases hstore : store size addr v c.bus with
    | error t bus =>
      rw [store_error hstore]
      exact hc
    | ok _ bus => exact (rollback_cons (store_back hfetch hstore)).trans hc

theorem push (v : UInt32) : Undoable (Exec.push v : Exec β Unit) :=
  bind cpu fun _ => bind (writeMem _ _ v) fun _ => modifyCpu _

theorem write (loc : Location) (size : Size) (v : UInt32) :
    Undoable (Exec.write loc size v : Exec β Unit) := by
  cases loc with
  | data r | addr r => exact of_frame fun _ => ⟨rfl, rfl⟩
  | mem addr => exact writeMem addr size v
  | imm _ => exact of_frame fun _ => ⟨rfl, rfl⟩
  | special reg => exact writeSpecial reg v

theorem writeEa (ea : Ea) (size : Size) (v : UInt32) :
    Undoable (Exec.writeEa ea size v : Exec β Unit) :=
  bind (resolve ea size) fun loc => write loc size v

theorem modifyEaBy (ea : Ea) (size : Size) {f : UInt32 → Exec β UInt32}
    (hf : ∀ v, Undoable (f v)) : Undoable (Exec.modifyEaBy ea size f) :=
  bind (resolve ea size) fun loc => bind (read loc size) fun v => bind (hf v) fun w =>
    bind (write loc size w) fun _ => pure w

end Write

end Undoable

end Exec

namespace Context

variable [Bus β]

/-- A context goes through calls that write, one after another, whether they fail or not. Between
them anything may happen to it but for memory and the journal. -/
inductive Calls : Context β → Context β → Prop
  | none (c : Context β) : Calls c c
  | elsewhere {c c' c'' : Context β} (before : Calls c c') (bus : c''.bus = c'.bus)
      (journal : c''.journal = c'.journal) : Calls c c''
  | writeMem {c c' : Context β} (before : Calls c c') (addr : UInt32) (size : Size) (v : UInt32) :
      Calls c ((Exec.writeMem addr size v).final c')
  | write {c c' : Context β} (before : Calls c c') (loc : Location) (size : Size) (v : UInt32) :
      Calls c ((Exec.write loc size v).final c')
  | writeEa {c c' : Context β} (before : Calls c c') (ea : Ea) (size : Size) (v : UInt32) :
      Calls c ((Exec.writeEa ea size v).final c')
  | push {c c' : Context β} (before : Calls c c') (v : UInt32) :
      Calls c ((Exec.push v).final c')
  /-- What is made of the operand may take calls, too. -/
  | modifyEaBy {c c' : Context β} (before : Calls c c') (ea : Ea) (size : Size)
      (f : UInt32 → Exec β UInt32) (inside : ∀ v c, Calls c ((f v).final c)) :
      Calls c ((Exec.modifyEaBy ea size f).final c')

theorem Calls.modifyEa {c c' : Context β} (before : c.Calls c') (ea : Ea) (size : Size)
    (f : UInt32 → UInt32) : c.Calls ((Exec.modifyEa ea size f).final c') := by
  rw [← Exec.modifyEaBy_pure]
  exact before.modifyEaBy ea size _ fun _ c => .none c

theorem Calls.undoes [LawfulBus β] {c c' : Context β} {b : β} (h : c.Calls c') (hc : c.Undoes b) :
    c'.Undoes b := by
  induction h generalizing b with
  | none c => exact hc
  | elsewhere _ bus journal ih =>
    have hundoes := ih hc
    unfold Undoes at hundoes ⊢
    rwa [bus, journal]
  | writeMem _ addr size v ih => exact Exec.Undoable.writeMem addr size v _ _ (ih hc)
  | write _ loc size v ih => exact Exec.Undoable.write loc size v _ _ (ih hc)
  | writeEa _ ea size v ih => exact Exec.Undoable.writeEa ea size v _ _ (ih hc)
  | push _ v ih => exact Exec.Undoable.push v _ _ (ih hc)
  | modifyEaBy _ ea size f _ ih inside =>
    exact Exec.Undoable.modifyEaBy ea size (fun v c _ hc => inside v c hc) _ _ (ih hc)

end Context

/-- Whatever calls were made on a context, the journal is written back without a failure, and memory
or the image is what it was when the context began. -/
theorem rollback_of_calls :
    (∀ (cpu : Cpu) (m : LinearMemory) (pc : UInt32) (opcode : UInt16) (c : Context LinearMemory),
      (Context.start cpu m pc opcode).Calls c → rollback c.journal c.bus = .ok () m) ∧
    ∀ (cpu : Cpu) (img : Image) (pc : UInt32) (opcode : UInt16) (c : Context Image),
      (Context.start cpu img pc opcode).Calls c → rollback c.journal c.bus = .ok () img :=
  ⟨fun _ _ _ _ _ h => h.undoes rfl, fun _ _ _ _ _ h => h.undoes rfl⟩

/-- In memory, three writes of different sizes that share a byte, and one beyond the end; in an image,
a write to mapped bytes and one beyond them. -/
theorem rollback_of_calls_overlap :
    let m := (LinearMemory.zeroed 0x10 0).setBytes 4 [1, 2, 3, 4]
    let c₁ := (Exec.writeMem 4 .word 0xBEEF).final (.start ((Cpu.new {}).setSp 9) m 0 0)
    let c₂ := (Exec.push 0xDEADBEEF).final c₁
    let c₃ := (Exec.writeMem 0x0E .long 0).final c₂
    let c₄ := (Exec.modifyEa (.absLong 5) .byte (· + 1)).final c₃
    let img := Image.ofBytes 4 [1, 2]
    let d₁ := (Exec.writeEa (.absLong 4) .word 0xBEEF).final (.start (Cpu.new {}) img 0 0)
    let d₂ := (Exec.write (.mem 5) .long 0).final d₁
    (c₄.journal = [⟨5, .byte, 0xDE⟩, ⟨5, .long, 0xEF030400⟩, ⟨4, .word, 0x0102⟩] ∧
      c₄.bus.byteAt 5 = 0xDF ∧ rollback c₄.journal c₄.bus = .ok () m) ∧
    d₂.bus.get? 5 = some 0xEF ∧ d₂.bus.get? 6 = none ∧ rollback d₂.journal d₂.bus = .ok () img := by
  intro m c₁ c₂ c₃ c₄ img d₁ d₂
  have hmemory : (Context.start ((Cpu.new {}).setSp 9) m 0 0).Calls c₄ :=
    (((Context.Calls.none _).writeMem 4 .word 0xBEEF).push 0xDEADBEEF).writeMem 0x0E .long 0
      |>.modifyEa (.absLong 5) .byte (· + 1)
  have himage : (Context.start (Cpu.new {}) img 0 0).Calls d₂ :=
    ((Context.Calls.none _).writeEa (.absLong 4) .word 0xBEEF).write (.mem 5) .long 0
  exact ⟨⟨by decide, by decide, rollback_of_calls.1 _ _ _ _ _ hmemory⟩, by decide, by decide,
    rollback_of_calls.2 _ _ _ _ _ himage⟩

end ColdFire
