import ColdFire.Execution.Step
import ColdFire.Proofs.Cpu.Handler
import ColdFire.Proofs.Execution.Undo

namespace ColdFire

namespace Run

variable {β : Type} [Bus β] {m m' : Machine β} {e : Exception} {faultPc : UInt32}

def frameWord (cpu : Cpu) (e : Exception) : UInt32 :=
  Exception.frameWord (cpu.ssp &&& 3) e.vector cpu.sr

/-- Both reads, then both writes, and only then the processor changes. -/
theorem enterException_eq : enterException e faultPc m =
    match fetch m.bus .long (m.cpu.vbr + e.vector * 4) with
    | .error t => .error t m
    | .ok handler =>
      match fetch m.bus .long (m.cpu.frameSp + 4) with
      | .error t => .error t m
      | .ok saved =>
        match store .long (m.cpu.frameSp + 4) faultPc m.bus with
        | .error t bus => .error t ⟨m.cpu, bus⟩
        | .ok _ bus =>
          match store .long m.cpu.frameSp (frameWord m.cpu e) bus with
          | .ok _ bus' => .ok () ⟨m.cpu.atHandler handler, bus'⟩
          | .error t bus' =>
            match store .long (m.cpu.frameSp + 4) saved bus' with
            | .ok _ bus'' => .error t ⟨m.cpu, bus''⟩
            | .error u bus'' => .error u ⟨m.cpu, bus''⟩ := by
  -- bus access by bus access, since any of them may fail
  unfold enterException
  simp only [bind, EStateM.bind, Run.cpu, readMem]
  unfold Cpu.frameSp
  cases fetch m.bus .long (m.cpu.vbr + e.vector * 4) with
  | error t => rfl
  | ok handler =>
    dsimp only
    cases fetch m.bus .long ((m.cpu.ssp &&& ~~~3) - 8 + 4) with
    | error t => rfl
    | ok saved =>
      dsimp only [writeMem]
      cases store .long ((m.cpu.ssp &&& ~~~3) - 8 + 4) faultPc m.bus with
      | error t bus => rfl
      | ok u bus =>
        dsimp only [writeLongOr, writeMem, frameWord]
        cases store .long ((m.cpu.ssp &&& ~~~3) - 8)
            (Exception.frameWord (m.cpu.ssp &&& 3) e.vector m.cpu.sr) bus with
        | ok u bus' => rfl
        | error t bus' =>
          dsimp only
          cases store .long ((m.cpu.ssp &&& ~~~3) - 8 + 4) saved bus' with
          | ok u bus'' => rfl
          | error u bus'' => rfl

/-- What an exception that is entered has read and written. -/
structure Entered (e : Exception) (faultPc : UInt32) (m m' : Machine β) (handler : UInt32)
    (bus : β) : Prop where
  fetches : fetch m.bus .long (m.cpu.vbr + e.vector * 4) = .ok handler
  storesPc : store .long (m.cpu.frameSp + 4) faultPc m.bus = .ok () bus
  storesWord : store .long m.cpu.frameSp (frameWord m.cpu e) bus = .ok () m'.bus
  cpu : m'.cpu = m.cpu.atHandler handler

theorem entered_of_ok (h : enterException e faultPc m = .ok () m') :
    ∃ handler bus, Entered e faultPc m m' handler bus := by
  rw [enterException_eq] at h
  split at h
  · cases h
  · rename_i handler hhandler
    split at h
    · cases h
    · split at h
      · cases h
      · rename_i bus hpc
        split at h
        · rename_i bus' hword
          cases h
          exact ⟨handler, bus, hhandler, hpc, hword, rfl⟩
        · split at h <;> cases h

theorem byte?_enterException [ByteBus β] (h : enterException e faultPc m = .ok () m') {a : UInt32}
    (ha : ∀ k < 8, a ≠ m.cpu.frameSp + UInt32.ofNat k) :
    ByteBus.byte? m'.bus a = ByteBus.byte? m.bus a := by
  obtain ⟨handler, bus, hentered⟩ := entered_of_ok h
  have hword : ByteBus.byte? m'.bus a = ByteBus.byte? bus a := by
    apply byte?_store hentered.storesWord
    intro k hk
    have hk : k < 4 := hk
    exact ha k (by omega)
  have hpc : ByteBus.byte? bus a = ByteBus.byte? m.bus a := by
    apply byte?_store hentered.storesPc
    intro k hk
    have hk : k < 4 := hk
    have hne := ha (k + 4) (by omega)
    rwa [add_ofNat_four] at hne
  exact hword.trans hpc

theorem cpu_of_enterException_error {t : Trap} (h : enterException e faultPc m = .error t m') :
    m'.cpu = m.cpu := by
  rw [enterException_eq] at h
  split at h
  · cases h
    rfl
  · split at h
    · cases h
      rfl
    · split at h
      · cases h
        rfl
      · split at h
        · cases h
        · split at h
          · cases h
            rfl
          · cases h
            rfl

/-- An exception that cannot be entered leaves the machine as it was: the one write that may have
succeeded is taken back. -/
theorem enterException_error [LawfulBus β] {t : Trap}
    (h : enterException e faultPc m = .error t m') : m' = m := by
  rw [enterException_eq] at h
  split at h
  · cases h
    rfl
  · split at h
    · cases h
      rfl
    · rename_i saved hsaved
      split at h
      · rename_i hpc
        cases h
        rw [store_error hpc]
      · rename_i bus hpc
        split at h
        · cases h
        · rename_i bus' hword
          rw [store_error hword, store_back hsaved hpc] at h
          cases h
          rfl

theorem of_run' {ε σ α : Type} {x : EStateM ε σ α} {s : σ} {p : α → σ → Bool}
    (h : EStateM.run' (x >>= fun a => p a <$> get) s = some true) :
    ∃ a s', x s = .ok a s' ∧ p a s' = true := by
  delta EStateM.run' EStateM.run at h
  simp only [bind, EStateM.bind] at h
  cases hx : x s with
  | ok a s' =>
    rw [hx] at h
    exact ⟨a, s', rfl, Option.some.inj h⟩
  | error t s' =>
    rw [hx] at h
    cases h

def enter (e : Exception) (faultPc : UInt32) : Run β RunState := do
  enterException e faultPc
  return (← Run.cpu).state

theorem enter_eq_ok {state : RunState} : enter e faultPc m = .ok state m' ↔
    enterException e faultPc m = .ok () m' ∧ m'.cpu.state = state := by
  simp only [enter, bind, EStateM.bind]
  cases enterException e faultPc m with
  | error t m'' => exact ⟨nofun, fun h => nomatch h.1⟩
  | ok u m'' =>
    constructor
    · intro h
      cases h
      exact ⟨rfl, rfl⟩
    · rintro ⟨h, rfl⟩
      cases h
      rfl

theorem enter_eq_error {t : Trap} : enter e faultPc m = .error t m' ↔
    enterException e faultPc m = .error t m' := by
  simp only [enter, bind, EStateM.bind]
  cases enterException e faultPc m with
  | ok u m'' => exact ⟨nofun, nofun⟩
  | error t m'' =>
    constructor
    · intro h
      cases h
      rfl
    · intro h
      cases h
      rfl

end Run

end ColdFire
