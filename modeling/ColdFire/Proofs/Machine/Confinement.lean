import ColdFire.Proofs.Execution.Ending

namespace ColdFire

namespace Definition

/-- An instruction of the definition can neither stop the processor nor load a part of the system.
-/
def isConfined (d : Definition) : Bool :=
  d.operation != .halt && d.operation != .stop && d.operation != .returnFromException &&
    match d.dstDemand with
    | .anything => d.operation == .divideLong
    | .special reg => reg == .ccr
    | _ => true

end Definition

/-- Whatever is not privileged is confined. -/
theorem Catalogue.isConfined : ∀ d ∈ all, d.privileged = false → d.isConfined = true :=
  List.all_iff_forall_prop.mp rfl

namespace Registry

variable {s : WordSource} {tier : Tier} {x : Entry} {decoded : Decoded} {c : Cursor}

theorem dst_ne_special (hlookup : full.lookup s.opcode tier = some x)
    (hdecode : x.1.decode s .start = .ok decoded c) (hconfined : x.1.isConfined = true)
    {reg : SpecialReg} (hreg : reg ≠ .ccr) :
    decoded.dst ≠ some (.special reg) := by
  intro hdst
  unfold Definition.isConfined at hconfined
  rw [Bool.and_eq_true] at hconfined
  rcases demand_of_special hlookup hdecode hdst with hdemand | ⟨hdemand, hop⟩
  · rw [hdemand] at hconfined
    exact hreg (eq_of_beq hconfined.2)
  · rw [hdemand] at hconfined
    exact hop (eq_of_beq hconfined.2)

theorem not_system (hlookup : full.lookup s.opcode tier = some x)
    (hdecode : x.1.decode s .start = .ok decoded c) (hconfined : x.1.isConfined = true) (cpu : Cpu)
    (pcBase : UInt32) : ¬ (decoded.permit x.1.operation cpu pcBase).system := by
  have hops := hconfined
  unfold Definition.isConfined at hops
  simp only [Bool.and_eq_true, bne_iff_ne] at hops
  obtain ⟨⟨⟨hhalt, hstop⟩, hreturn⟩, -⟩ := hops
  rintro (h | h | h | ⟨reg, hdst, hreg⟩)
  · exact hhalt h
  · exact hstop h
  · exact hreturn h
  · exact dst_ne_special hlookup hdecode hconfined hreg hdst

end Registry

namespace Cpu.SameSystem

variable {cpu cpu' : Cpu}

theorem isSupervisor (h : cpu.SameSystem cpu') : cpu'.isSupervisor = cpu.isSupervisor := by
  have hmask : ∀ sr : UInt16, sr &&& Flag.supervisor.mask =
      sr &&& ~~~Status.conditionCodes &&& Flag.supervisor.mask := by
    intro sr
    rw [UInt16.and_assoc]
    rfl
  unfold Cpu.isSupervisor Cpu.flag Flag.isSet
  rw [hmask, h.status, ← hmask]

theorem vbr (h : cpu.SameSystem cpu') : cpu'.vbr = cpu.vbr := by
  unfold Cpu.vbr Cpu.control?
  rw [h.control]

end Cpu.SameSystem

namespace Run

variable {β : Type} [Bus β] {m m' m'' : Machine β} {state : RunState} {e : Exception}
  {faultPc : UInt32} {bus : β} {c : Context β}

theorem sameSystem_of_completed (user : m.cpu.isSupervisor = false)
    (h : ending .full m = .completed c) : m.cpu.SameSystem c.cpu := by
  obtain ⟨word, x, decoded, cursor, -, hlookup, hpriv, hdecode, h⟩ := of_completed h
  rw [user, Bool.not_false, Bool.and_true] at hpriv
  -- what user mode may complete is not privileged, and that is all it takes
  have hconfined := Catalogue.isConfined x.1 (Registry.of_lookup_full hlookup).1 hpriv
  have hchanges := changes_of_completed hlookup hdecode h
  exact hchanges.sameSystem (Registry.not_system (s := .inMemory m.bus word.toUInt16 m.cpu.pc)
    hlookup hdecode hconfined _ _)

/-- Steps one after another, of which none enters an exception. One that fails may be tried again.
-/
inductive Unentered (r : Registry) (m : Machine β) : Nat → Machine β → Prop
  | start : Unentered r m 0 m
  | completes {n : Nat} {m' m'' : Machine β} {state : RunState} (before : Unentered r m n m')
      (plain : m'.cpu.state = .running → ∀ e faultPc bus, ending r m' ≠ .raised e faultPc bus)
      (done : step r m' = .ok state m'') : Unentered r m (n + 1) m''
  | fails {n : Nat} {m' m'' : Machine β} {t : Trap} (before : Unentered r m n m')
      (failure : step r m' = .error t m'') : Unentered r m (n + 1) m''

/-- A step that enters no exception leaves the system alone. -/
theorem sameSystem_of_step (user : m.cpu.isSupervisor = false)
    (plain : m.cpu.state = .running → ∀ e faultPc bus, ending .full m ≠ .raised e faultPc bus)
    (h : step .full m = .ok state m') : m.cpu.SameSystem m'.cpu := by
  by_cases running : m.cpu.state = .running
  · obtain ⟨c, hending, rfl⟩ := completed_of_step running (plain running) h
    have hsame := sameSystem_of_completed user hending
    exact ⟨hsame.status, hsame.otherSp, hsame.control, hsame.config, hsame.state⟩
  · rw [step_of_not_running running] at h
    cases h
    exact .refl _

theorem cpu_of_error {r : Registry} {t : Trap} (h : step r m = .error t m') : m'.cpu = m.cpu := by
  by_cases running : m.cpu.state = .running
  · rw [step_of_running running] at h
    cases hending : ending r m with
    | completed c =>
      rw [hending] at h
      cases h
    | raised e faultPc bus =>
      rw [hending] at h
      exact cpu_of_enterException_error (m := ⟨m.cpu, bus⟩) (enter_eq_error.1 h)
    | failed t bus =>
      rw [hending] at h
      cases h
      rfl
  · rw [step_of_not_running running] at h
    cases h

theorem sameSystem_of_unentered {n : Nat} (user : m.cpu.isSupervisor = false)
    (hrun : Unentered .full m n m') : m.cpu.SameSystem m'.cpu := by
  -- the mode is part of the system, so it is user mode all along
  induction hrun with
  | start => exact .refl _
  | completes _ plain done ih =>
    exact ih.trans (sameSystem_of_step (ih.isSupervisor.trans user) plain done)
  | fails _ failure ih =>
    rw [cpu_of_error failure]
    exact ih

/-- In user mode nothing of the system changes until an exception is entered. The step that enters
it goes to supervisor mode, at the address in the vector table, with the control registers as they
were and the program's stack pointer in the user stack pointer. -/
theorem confined {n : Nat} (user : m.cpu.isSupervisor = false) (hrun : Unentered .full m n m') :
    m.cpu.SameSystem m'.cpu ∧ m'.cpu.ssp = m.cpu.ssp ∧
      ∀ e faultPc bus state m'', m'.cpu.state = .running →
        ending .full m' = .raised e faultPc bus → step .full m' = .ok state m'' →
          m''.cpu.isSupervisor = true ∧
          fetch bus .long (m.cpu.vbr + e.vector * 4) = .ok m''.cpu.pc ∧
          m''.cpu.control = m.cpu.control ∧ m''.cpu.usp = m'.cpu.sp := by
  have hsame := sameSystem_of_unentered user hrun
  have user' : m'.cpu.isSupervisor = false := hsame.isSupervisor.trans user
  refine ⟨hsame, ?_, ?_⟩
  · rw [Cpu.ssp, Cpu.ssp, user, user']
    exact hsame.otherSp
  intro e faultPc bus state m'' running hending hstep
  rw [step_of_running running, hending] at hstep
  obtain ⟨handler, _, hentered⟩ := entered_of_ok (enter_eq_ok.1 hstep).1
  rw [hentered.cpu, ← hsame.vbr, ← hsame.control]
  refine ⟨Cpu.isSupervisor_atHandler _ _, hentered.fetches, Cpu.control_atHandler _ _, ?_⟩
  rw [Cpu.usp_atHandler, Cpu.usp, user']
  rfl

set_option maxRecDepth 1000 in
theorem confined_trap :
    let m : Machine LinearMemory :=
      ⟨{ (Cpu.new {}).setSp 0x60 with pc := 0x20, sr := 0, otherSp := 0x40 },
        ((LinearMemory.zeroed 0x100 0).setBytes 0x80 [0, 0, 0, 0x30]).setBytes 0x20
          [0x4E, 0x71, 0x4E, 0x40]⟩
    let m' : Machine LinearMemory := ⟨{ m.cpu with pc := 0x22 }, m.bus⟩
    Unentered .full m 1 m' ∧ ending .full m' = .raised (.trap 0) 0x24 m.bus ∧
      ∃ m'', step .full m' = .ok .running m'' ∧ m''.cpu.isSupervisor = true ∧
        fetch m.bus .long (m.cpu.vbr + 0x80) = .ok m''.cpu.pc ∧ m''.cpu.usp = 0x60 := by
  intro m m'
  have hnop : ending .full m = .completed (.ready m.cpu m.bus 0x20 0x4E71 .start) := by
    have hlookup : Registry.full.lookup 0x4E71 .c = some (Catalogue.all[124], 124) :=
      Registry.lookup_of_claims (by decide) (by decide)
    have hfetch : fetch m.bus .word m.cpu.pc = .ok 0x4E71 := by decide
    exact ending_of_lookup hfetch hlookup rfl
  have hstep : step .full m = .ok .running m' := by
    rw [step_of_running rfl, hnop]
    rfl
  have hplain : ∀ e faultPc bus, ending .full m ≠ .raised e faultPc bus := by
    intro e faultPc bus h
    cases hnop.symm.trans h
  have hrun : Unentered .full m 1 m' := .completes .start (fun _ => hplain) hstep
  have hlookup : Registry.full.lookup 0x4E40 .c = some (Catalogue.all[129], 129) :=
    Registry.lookup_of_claims (by decide) (by decide)
  have hfetch : fetch m'.bus .word m'.cpu.pc = .ok 0x4E40 := by decide
  obtain ⟨bus, htraps⟩ := Ending.eq_raised
    (show (endingOf (Catalogue.all[129]) 0x4E40 m').raised? = some (.trap 0, 0x24) by
      decide)
  have hending := (ending_of_lookup hfetch hlookup rfl).trans htraps
  have hrestores := ending_restores m'
  rw [hending] at hrestores
  obtain ⟨rfl, -⟩ := hrestores
  obtain ⟨state, m'', hentry, hstate⟩ := of_run' (x := enter (.trap 0) 0x24) (s := m')
    (p := fun state _ => state = .running) (by decide)
  have htrap : step .full m' = .ok .running m'' := by
    rw [step_of_running rfl, hending, ← of_decide_eq_true hstate]
    exact hentry
  obtain ⟨hmode, hpc, -, husp⟩ := (confined (by decide) hrun).2.2 _ _ _ _ _ rfl hending htrap
  exact ⟨hrun, hending, m'', htrap, hmode, hpc, husp⟩

end Run

end ColdFire
