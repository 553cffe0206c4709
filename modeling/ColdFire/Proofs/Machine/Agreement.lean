import ColdFire.Proofs.Execution.Ending

namespace ColdFire

def Operation.flow : Operation → Flow
  | branch cond => if cond = 0 then .branch else if cond = 1 then .call else .condBranch
  | jump => .indirect
  | call => .call
  | returnFromCall | returnFromException => .return
  | illegal | halt | stop => .stop
  | _ => .next

theorem Operation.flow_branch (cond : UInt16) : (branch cond).flow =
    if cond = 0 then .branch else if cond = 1 then .call else .condBranch := rfl

namespace Definition

def transfers (d : Definition) (opcode sr : UInt16) : Bool :=
  match d.flow with
  | .next | .stop => false
  | .condBranch => Condition.holds (Field.cond.get opcode) sr
  | .branch | .call | .indirect | .return => true

def fixesCondition (d : Definition) : Bool :=
  match d.operation with
  | .branch cond => Field.cond.get d.opcode == cond && d.operandMask &&& Field.cond.mask == 0
  | _ => true

def namesControl (d : Definition) : Bool :=
  match d.dstDemand with
  | .anything => d.operation == .divideLong || d.format.ownNames == [] && d.mnemonic == "movec"
  | .special (.control _) => false
  | _ => true

end Definition

namespace Catalogue

theorem flow_eq : ∀ d ∈ all, d.flow = d.operation.flow := List.all_iff_forall_prop.mp rfl

theorem fixesCondition : ∀ d ∈ all, d.fixesCondition = true := List.all_iff_forall_prop.mp rfl

theorem namesControl : ∀ d ∈ all, d.namesControl = true := List.all_iff_forall_prop.mp rfl

theorem named_illegal : ∀ d ∈ all, d.operation = .illegal →
    d.format.ownNames = [] ∧ d.mnemonic = "illegal" :=
  List.all_iff_forall_prop.mp rfl

end Catalogue

namespace Definition

variable {d : Definition} {w sr : UInt16}

theorem cond_of_fits {cond : UInt16} (hd : d ∈ Catalogue.all) (hfits : d.fits w = true)
    (hop : d.operation = .branch cond) : Field.cond.get w = cond := by
  have hfixes := Catalogue.fixesCondition d hd
  unfold fixesCondition at hfixes
  rw [hop, Bool.and_eq_true, beq_iff_eq, beq_iff_eq] at hfixes
  rw [get_of_fixed hfits (by decide) hfixes.2]
  exact hfixes.1

/-- An instruction that does not transfer control performs an operation that does not jump. -/
theorem not_jumps (hd : d ∈ Catalogue.all) (hfits : d.fits w = true)
    (h : d.transfers w sr = false) : ¬ d.operation.Jumps sr := by
  unfold transfers at h
  rw [Catalogue.flow_eq d hd] at h
  cases hop : d.operation with
  | branch cond =>
    rw [hop, Operation.flow_branch] at h
    by_cases hzero : cond = 0
    · rw [if_pos hzero] at h
      cases h
    by_cases hone : cond = 1
    · rw [if_neg hzero, if_pos hone] at h
      cases h
    rw [if_neg hzero, if_neg hone, cond_of_fits hd hfits hop] at h
    rintro (hcall | hholds)
    · exact hone hcall
    · exact Bool.false_ne_true (h.symm.trans hholds)
  | jump | call | returnFromCall | returnFromException =>
    rw [hop] at h
    cases h
  | _ => exact id

end Definition

namespace Registry

variable {s : WordSource} {tier : Tier} {x : Entry} {decoded : Decoded} {c : Cursor}

theorem mnemonic_of_control (hlookup : full.lookup s.opcode tier = some x)
    (hdecode : x.1.decode s .start = .ok decoded c) {code : UInt16}
    (hdst : decoded.dst = some (.special (.control code))) : decoded.mnemonic = "movec" := by
  have hnames := Catalogue.namesControl x.1 (of_lookup_full hlookup).1
  unfold Definition.namesControl at hnames
  rcases demand_of_special hlookup hdecode hdst with hdemand | ⟨hdemand, hop⟩
  · rw [hdemand] at hnames
    cases hnames
  · rw [hdemand] at hnames
    simp only [Bool.or_eq_true, Bool.and_eq_true, beq_iff_eq] at hnames
    rcases hnames with hdivides | ⟨hown, hname⟩
    · exact absurd hdivides hop
    · exact (Definition.mnemonic_of_decode hdecode hown).trans hname

end Registry

namespace Run

variable {β : Type} [Bus β] {m m' : Machine β} {state : RunState} {word : UInt32}

/-- The exception for words that are no instruction. Opcode words that no definition claims have
lines of their own. -/
def refusal (r : Registry) (tier : Tier) (opcode : UInt16) : Exception :=
  if r.lookup opcode tier = none ∧ opcode >>> 12 = 0xA then .lineA
  else if r.lookup opcode tier = none ∧ opcode >>> 12 = 0xF then .lineF
  else .illegalInstruction

theorem refusal_of_unclaimed {r : Registry} {tier : Tier} {opcode : UInt16}
    (h : r.lookup opcode tier = none) : refusal r tier opcode = unclaimed opcode := by
  unfold refusal unclaimed
  by_cases ha : opcode >>> 12 = 0xA
  · rw [if_pos ⟨h, ha⟩, ha]
    rfl
  by_cases hf : opcode >>> 12 = 0xF
  · rw [if_neg (ha ·.2), if_pos ⟨h, hf⟩, hf]
    rfl
  rw [if_neg (ha ·.2), if_neg (hf ·.2)]
  split
  · rename_i heq
    exact (ha (UInt16.toNat_inj.1 heq)).elim
  · rename_i heq
    exact (hf (UInt16.toNat_inj.1 heq)).elim
  · rfl

theorem refusal_of_claimed {r : Registry} {tier : Tier} {opcode : UInt16} {x : Entry}
    (h : r.lookup opcode tier = some x) : refusal r tier opcode = .illegalInstruction := by
  have hne : r.lookup opcode tier ≠ none := by
    rw [h]
    exact nofun
  rw [refusal, if_neg (hne ·.1), if_neg (hne ·.1)]

section Decoded

variable {r : Registry} {opcode : UInt16} {x : Entry} {decoded : Decoded} {cursor : Cursor}

theorem ending_of_supervisor (supervisor : m.cpu.isSupervisor = true)
    (hfetch : fetch m.bus .word m.cpu.pc = .ok word)
    (hlookup : r.lookup word.toUInt16 m.cpu.config.tier = some x) :
    ending r m = endingOf x.1 word.toUInt16 m := by
  apply ending_of_lookup hfetch hlookup
  rw [supervisor, Bool.not_true, Bool.and_false]

theorem ending_of_refused (supervisor : m.cpu.isSupervisor = true)
    (hfetch : fetch m.bus .word m.cpu.pc = .ok word)
    (h : r.decode m.cpu.config.tier (.inMemory m.bus word.toUInt16 m.cpu.pc) .start =
      .ok none cursor) :
    ending r m = .raised (refusal r m.cpu.config.tier word.toUInt16) m.cpu.pc m.bus := by
  cases hlookup : r.lookup word.toUInt16 m.cpu.config.tier with
  | none =>
    rw [ending, hfetch]
    dsimp only
    rw [hlookup, refusal_of_unclaimed hlookup]
  | some x =>
    rw [Registry.decode_of_lookup (s := .inMemory m.bus word.toUInt16 m.cpu.pc) hlookup] at h
    rw [ending_of_supervisor supervisor hfetch hlookup, refusal_of_claimed hlookup]
    split at h
    · cases h
    · rename_i hdecode
      exact endingOf_of_decode_error hdecode
    · cases h

theorem ending_of_unreadable {t : Trap} (supervisor : m.cpu.isSupervisor = true)
    (hfetch : fetch m.bus .word m.cpu.pc = .ok word)
    (h : r.decode m.cpu.config.tier (.inMemory m.bus word.toUInt16 m.cpu.pc) .start =
      .error t cursor) :
    ending r m = .failed t m.bus := by
  cases hlookup : r.lookup word.toUInt16 m.cpu.config.tier with
  | none =>
    rw [Registry.decode, WordSource.inMemory, hlookup] at h
    cases h
  | some x =>
    rw [Registry.decode_of_lookup (s := .inMemory m.bus word.toUInt16 m.cpu.pc) hlookup] at h
    rw [ending_of_supervisor supervisor hfetch hlookup]
    split at h
    · cases h
    · cases h
    · rename_i hreserved hdecode
      cases h
      rw [endingOf_of_decode_error hdecode]
      cases t with
      | reserved _ _ _ => exact absurd rfl (hreserved _ _ _)
      | _ => rfl

/-- A decoded instruction is illegal only if it is ILLEGAL, or loads a register that there is not.
-/
theorem illegal_of_decode {faultPc : UInt32} {bus : β}
    (hlookup : Registry.full.lookup opcode m.cpu.config.tier = some x)
    (hdecode : x.1.decode (.inMemory m.bus opcode m.cpu.pc) .start = .ok decoded cursor)
    (h : endingOf x.1 opcode m = .raised .illegalInstruction faultPc bus) :
    decoded.mnemonic = "illegal" ∨ decoded.mnemonic = "movec" ∧
      ∃ code, decoded.dst = some (.special (.control code)) ∧
        ControlRegister.position? code = none := by
  rcases fault_of_raised hlookup hdecode h with hop | ⟨code, hdst, hcode⟩
  · obtain ⟨hown, hname⟩ :=
      Catalogue.named_illegal x.1 (Registry.of_lookup_full hlookup).1 hop
    exact .inl ((Definition.mnemonic_of_decode hdecode hown).trans hname)
  · have hname := Registry.mnemonic_of_control (s := .inMemory m.bus opcode m.cpu.pc)
      hlookup hdecode hdst
    exact .inr ⟨hname, code, hdst, hcode⟩

theorem continuation_of_decode {c : Context β}
    (hlookup : Registry.full.lookup opcode m.cpu.config.tier = some x)
    (hdecode : x.1.decode (.inMemory m.bus opcode m.cpu.pc) .start = .ok decoded cursor)
    (htransfers : x.1.transfers opcode m.cpu.sr = false)
    (h : endingOf x.1 opcode m = .completed c) :
    c.continuation = m.cpu.pc + UInt32.ofNat decoded.length := by
  obtain ⟨hd, hfits, -⟩ := Registry.of_lookup_full hlookup
  have hchanges := changes_of_completed hlookup hdecode h
  have hjump : c.jump = none := hchanges.jump (Definition.not_jumps hd hfits htransfers)
  rw [Context.continuation, hjump, Option.getD_none, hchanges.nextPc, Exec.nextPc_ready hdecode,
    Decoded.nextAddress, (Definition.read_of_decode hdecode).2.1]
  rfl

end Decoded

/-- In supervisor mode a step does with the words at the program counter what the decoder says of
them. Words that are no instruction raise an exception, words that cannot be read fail the step, and
an instruction is not refused once it was decoded, except for ILLEGAL and for control registers that
there are not. Unless it transfers control, the step leaves it behind by its length. -/
theorem step_agrees {source : WordSource} (running : m.cpu.state = .running)
    (supervisor : m.cpu.isSupervisor = true)
    (hsource : WordSource.ofBus m.bus m.cpu.pc = .ok source) :
    match Registry.full.decode m.cpu.config.tier source .start with
    | .error t _ => step .full m = .error t m
    | .ok none _ =>
      step .full m = enter (refusal .full m.cpu.config.tier source.opcode) m.cpu.pc m
    | .ok (some decoded) _ =>
      (∀ faultPc bus, ending .full m = .raised .illegalInstruction faultPc bus →
        decoded.mnemonic = "illegal" ∨ decoded.mnemonic = "movec" ∧
          ∃ code, decoded.dst = some (.special (.control code)) ∧
            ControlRegister.position? code = none) ∧
      ∀ x, Registry.full.lookup source.opcode m.cpu.config.tier = some x →
        x.1.transfers source.opcode m.cpu.sr = false →
        (∀ e faultPc bus, ending .full m ≠ .raised e faultPc bus) →
        ∀ state m', step .full m = .ok state m' →
          m'.cpu.pc = m.cpu.pc + UInt32.ofNat decoded.length := by
  obtain ⟨word, hfetch, rfl⟩ : ∃ word, fetch m.bus .word m.cpu.pc = .ok word ∧
      source = .inMemory m.bus word.toUInt16 m.cpu.pc := by
    rw [WordSource.ofBus] at hsource
    cases hfetch : fetch m.bus .word m.cpu.pc with
    | error t =>
      rw [hfetch] at hsource
      cases hsource
    | ok word =>
      rw [hfetch] at hsource
      cases hsource
      exact ⟨word, rfl, rfl⟩
  -- words that cannot be read, words that are no instruction, and an instruction
  split
  · rename_i t cursor h
    rw [step_of_running running, ending_of_unreadable supervisor hfetch h]
    rfl
  · rename_i cursor h
    rw [step_of_running running, ending_of_refused supervisor hfetch h]
    rfl
  · rename_i decoded cursor h
    obtain ⟨x, hlookup, hdecode⟩ := Registry.of_decode_some h
    have hending := ending_of_supervisor supervisor hfetch hlookup
    refine ⟨fun faultPc bus hraised => ?_, fun x' hlookup' htransfers plain state m' hstep => ?_⟩
    · exact illegal_of_decode hlookup hdecode (hending.symm.trans hraised)
    · cases hlookup.symm.trans hlookup'
      obtain ⟨c, hcompleted, rfl⟩ := completed_of_step running plain hstep
      exact continuation_of_decode hlookup hdecode htransfers (hending.symm.trans hcompleted)

set_option maxRecDepth 1000 in
/-- A conditional branch with a word of displacement, which is not taken. -/
theorem step_agrees_branch :
    let m : Machine LinearMemory := ⟨{ Cpu.new {} with pc := 0x20 },
      (LinearMemory.zeroed 0x40 0).setBytes 0x20 [0x6B, 0x00, 0x00, 0x10]⟩
    ∃ source decoded cursor m', WordSource.ofBus m.bus 0x20 = .ok source ∧
      Registry.full.decode .c source .start = .ok (some decoded) cursor ∧
      decoded.mnemonic = "bmi" ∧ decoded.length = 4 ∧ step .full m = .ok .running m' ∧
      m'.cpu.pc = 0x24 := by
  intro m
  have hlookup : Registry.full.lookup 0x6B00 m.cpu.config.tier = some (Catalogue.all[94], 94) :=
    Registry.lookup_of_claims (by decide) (by decide)
  have hfetch : fetch m.bus .word 0x20 = .ok 0x6B00 := by decide
  have hsource : WordSource.ofBus m.bus 0x20 = .ok (.inMemory m.bus 0x6B00 0x20) := by
    rw [WordSource.ofBus, hfetch]
    rfl
  obtain ⟨decoded, cursor, hread, hdecoded⟩ := of_run'
    (x := (Catalogue.all[94]).decode (.inMemory m.bus 0x6B00 0x20)) (s := .start)
    (p := fun decoded _ => decoded.mnemonic = "bmi" ∧ decoded.length = 4) (by decide)
  obtain ⟨hname, hlength⟩ := of_decide_eq_true hdecoded
  obtain ⟨c, hcompletes, hc⟩ := Ending.eq_completed (p := fun c => c.cpu.state = .running)
    (show (endingOf (Catalogue.all[94]) 0x6B00 m).completed?.any _ = true by decide)
  have hending := (ending_of_lookup hfetch hlookup rfl).trans hcompletes
  have hstep : step .full m = .ok .running ⟨{ c.cpu with pc := c.continuation }, c.bus⟩ := by
    rw [step_of_running rfl, hending, ← of_decide_eq_true hc]
    rfl
  have hplain : ∀ e faultPc bus, ending .full m ≠ .raised e faultPc bus := by
    intro e faultPc bus h
    cases hending.symm.trans h
  have hdecode := Registry.decode_of_lookup (s := .inMemory m.bus 0x6B00 0x20) (c := .start) hlookup
  rw [hread] at hdecode
  have hagrees := step_agrees (m := m) rfl (by decide) hsource
  rw [hdecode] at hagrees
  have hpc := hagrees.2 _ hlookup (by decide) hplain _ _ hstep
  rw [hlength] at hpc
  exact ⟨_, decoded, cursor, _, hsource, hdecode, hname, hlength, hstep, hpc⟩

end Run

end ColdFire
