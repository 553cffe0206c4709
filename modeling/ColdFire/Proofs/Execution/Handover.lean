import ColdFire.ControlFlow.Edge
import ColdFire.Proofs.Execution.PcBase
import ColdFire.Proofs.Machine.Agreement

namespace ColdFire

namespace Cpu

variable (cpu : Cpu)

theorem config_setSr (value : UInt16) : (cpu.setSr value).config = cpu.config := by
  unfold setSr
  dsimp only
  split <;> rfl

theorem config_setUsp (v : UInt32) : (cpu.setUsp v).config = cpu.config := by
  unfold setUsp
  split <;> rfl

end Cpu

namespace Definition

def transfersToSpecial (d : Definition) : Bool :=
  match d.dstDemand with
  | .special _ => d.operation == .transfer
  | _ => true

end Definition

namespace Catalogue

theorem transfersToSpecial : ∀ d ∈ all, d.transfersToSpecial = true :=
  List.all_iff_forall_prop.mp rfl

end Catalogue

namespace Exec

variable {α γ β : Type}

/-- Where it succeeds, a computation leaves the configuration of the processor alone. -/
def KeepsConfig (x : Exec β α) : Prop :=
  ∀ ⦃c a c'⦄, x c = .ok a c' → c'.cpu.config = c.cpu.config

namespace KeepsConfig

theorem pure (a : α) : KeepsConfig (Pure.pure a : Exec β α) := by
  rintro c b c' ⟨⟩
  rfl

theorem raise (e : Exception) : KeepsConfig (raise e : Exec β α) := by
  intro c a c' h
  cases h

theorem fail (t : Trap) : KeepsConfig (fail t : Exec β α) := by
  intro c a c' h
  cases h

theorem cpu : KeepsConfig (Exec.cpu : Exec β Cpu) := by
  rintro c b c' ⟨⟩
  rfl

theorem jumpTo (target : UInt32) : KeepsConfig (Exec.jumpTo target : Exec β Unit) := by
  rintro c b c' ⟨⟩
  rfl

theorem modifyCpu {f : Cpu → Cpu} (h : ∀ cpu, (f cpu).config = cpu.config) :
    KeepsConfig (Exec.modifyCpu f : Exec β Unit) := by
  rintro c b c' ⟨⟩
  exact h c.cpu

theorem bind {x : Exec β α} {f : α → Exec β γ} (hx : KeepsConfig x) (hf : ∀ a, KeepsConfig (f a)) :
    KeepsConfig (x >>= f) := by
  intro c b c' h
  obtain ⟨a, c₁, ha, hb⟩ := bind_eq_ok.1 h
  exact (hf a hb).trans (hx ha)

theorem ofLogic (x : Except LogicError α) : KeepsConfig (ofLogic x : Exec β α) := by
  cases x with
  | ok a => exact .pure a
  | error e => exact .fail _

theorem resolve (ea : Ea) (size : Size) : KeepsConfig (resolve ea size : Exec β Location) := by
  intro c loc c' h
  unfold Exec.resolve at h
  split at h
  · cases h
  · split at h
    · cases h
      rfl
    · cases h
      rfl

theorem readSpecial (reg : SpecialReg) : KeepsConfig (readSpecial reg : Exec β UInt32) := by
  refine .bind .cpu fun cpu => ?_
  cases reg with
  | sr | ccr | usp => exact .pure _
  | control code =>
    dsimp only
    split
    · exact .pure _
    · exact .raise _
  | cache _ => exact .fail _

theorem writeSpecial (reg : SpecialReg) (v : UInt32) :
    KeepsConfig (writeSpecial reg v : Exec β Unit) := by
  cases reg with
  | sr => exact .modifyCpu fun cpu => cpu.config_setSr _
  | ccr => exact .modifyCpu (f := (·.setCcr v.toUInt8)) fun _ => rfl
  | usp => exact .modifyCpu fun cpu => cpu.config_setUsp _
  | control code =>
    intro c u c' h
    rw [Exec.writeSpecial, bind_eq_ok] at h
    obtain ⟨cpu, _, ⟨⟩, h⟩ := h
    unfold Cpu.setControl? at h
    cases hcode : ControlRegister.position? code with
    | none =>
      rw [hcode] at h
      cases h
    | some i =>
      rw [hcode] at h
      cases h
      rfl
  | cache _ => exact .fail _

variable [Bus β]

theorem readMem (addr : UInt32) (size : Size) : KeepsConfig (readMem addr size : Exec β UInt32) := by
  intro c v c' h
  unfold Exec.readMem at h
  split at h
  · cases h
    rfl
  · cases h

theorem readEa (ea : Ea) (size : Size) : KeepsConfig (readEa ea size : Exec β UInt32) := by
  refine .bind (.resolve ea size) fun loc => ?_
  cases loc with
  | data r | addr r => exact .bind .cpu fun _ => .pure _
  | mem addr => exact .readMem addr size
  | imm v => exact .pure _
  | special reg => exact .readSpecial reg

theorem pull : KeepsConfig (pull : Exec β UInt32) :=
  .bind .cpu fun _ => .bind (.readMem _ _) fun _ => .bind (.modifyCpu fun _ => rfl) fun _ => .pure _

theorem returnFromException : KeepsConfig (returnFromException : Exec β Unit) := by
  refine .bind .pull fun frame => .bind .pull fun pc => ?_
  dsimp only
  split
  · exact .raise _
  · exact .bind (.modifyCpu fun cpu => Cpu.config_setSr _ _) fun _ => .jumpTo _

theorem stop (d : Decoded) : KeepsConfig (perform .stop d : Exec β Unit) :=
  .bind (.ofLogic _) fun _ => .bind (.readEa _ _) fun _ => .modifyCpu fun cpu => cpu.config_setSr _

theorem transfer {d : Decoded} {reg : SpecialReg} (hdst : d.dst = some (.special reg)) :
    KeepsConfig (perform .transfer d : Exec β Unit) := by
  refine .bind (.ofLogic _) fun _ => .bind (.readEa _ _) fun v => ?_
  rw [Decoded.destination, hdst]
  exact .writeSpecial reg v

end KeepsConfig

variable {x : Entry} {tier : Tier} {decoded : Decoded} {cursor : Cursor}

theorem operation_of_special {s : WordSource} (hlookup : Registry.full.lookup s.opcode tier = some x)
    (hdecode : x.1.decode s .start = .ok decoded cursor) {reg : SpecialReg}
    (hdst : decoded.dst = some (.special reg)) : x.1.operation = .transfer := by
  have hd := (Registry.of_lookup_full hlookup).1
  rcases Registry.demand_of_special hlookup hdecode hdst with hdemand | ⟨hdemand, hne⟩
  · have htransfers := Catalogue.transfersToSpecial x.1 hd
    unfold Definition.transfersToSpecial at htransfers
    rw [hdemand] at htransfers
    exact eq_of_beq htransfers
  · exact (Catalogue.operation_of_anything x.1 hd hdemand).resolve_left hne

variable [Bus β] {c c' : Context β} {d : Decoded}

/-- An operation that ends without a jump, and does not stop the processor, is of a kind that goes on
behind itself. -/
theorem fallsThrough_of_perform {op : Operation} (h : perform op d c = .ok () c')
    (hjump : c'.jump = none) (hstate : c'.cpu.state = .running) :
    op.flow.fallsThrough = true := by
  have habsurd {target : UInt32} {c₁ : Context β} (h : jumpTo target c₁ = .ok () c') : False := by
    rw [jump_of_jumpTo h] at hjump
    cases hjump
  cases op with
  | branch cond =>
    rw [Operation.flow_branch]
    by_cases hzero : cond = 0
    · -- a branch that is always taken ends in a jump
      subst hzero
      simp only [perform, branch, bind_eq_ok] at h
      obtain ⟨src, c₁, -, h⟩ := h
      split at h
      · rw [if_neg (by decide), bind_eq_ok] at h
        obtain ⟨cpu, c₂, -, h⟩ := h
        have halways : Condition.holds 0 cpu.sr = true := rfl
        rw [if_pos halways] at h
        exact (habsurd h).elim
      · cases h
    · rw [if_neg hzero]
      split <;> rfl
  | jump =>
    simp only [perform, bind_eq_ok] at h
    obtain ⟨_, _, -, _, _, -, h⟩ := h
    exact (habsurd h).elim
  | returnFromCall =>
    simp only [perform, bind_eq_ok] at h
    obtain ⟨_, _, -, h⟩ := h
    exact (habsurd h).elim
  | returnFromException =>
    simp only [perform, returnFromException, bind_eq_ok] at h
    obtain ⟨_, _, -, _, _, -, h⟩ := h
    split at h
    · cases h
    · rw [bind_eq_ok] at h
      obtain ⟨_, _, -, h⟩ := h
      exact (habsurd h).elim
  | illegal => cases h
  | halt =>
    cases h
    cases hstate
  | stop =>
    simp only [perform, bind_eq_ok] at h
    obtain ⟨_, _, -, _, _, -, h⟩ := h
    cases h
    cases hstate
  | _ => rfl

end Exec

namespace Run

variable {β : Type} [Bus β] {m : Machine β} {x : Entry} {tier : Tier} {opcode : UInt16}
  {decoded : Decoded} {cursor : Cursor} {c : Context β}

variable (hlookup : Registry.full.lookup opcode tier = some x)
  (hdecode : x.1.decode (.inMemory m.bus opcode m.cpu.pc) .start = .ok decoded cursor)
  (h : endingOf x.1 opcode m = .completed c)

include hlookup hdecode h

theorem config_of_completed : c.cpu.config = m.cpu.config := by
  have hchanges := changes_of_completed hlookup hdecode h
  have hperform := perform_of_completed hdecode h
  by_cases hsystem : (decoded.permit x.1.operation m.cpu
      (Context.ready m.cpu m.bus m.cpu.pc opcode cursor).pcBase).system
  · rcases hsystem with hop | hop | hop | ⟨reg, hdst, -⟩
    · rw [hop] at hperform
      cases hperform
      rfl
    · rw [hop] at hperform
      exact Exec.KeepsConfig.stop _ hperform
    · rw [hop] at hperform
      exact Exec.KeepsConfig.returnFromException hperform
    · have hop := Exec.operation_of_special (s := .inMemory m.bus opcode m.cpu.pc) hlookup hdecode hdst
      rw [hop] at hperform
      exact Exec.KeepsConfig.transfer hdst hperform
  · exact (hchanges.sameSystem hsystem).config

/-- An instruction that completes without a jump goes on behind itself, as its definition says. -/
theorem fallsThrough_of_completed (hjump : c.jump = none) (hstate : c.cpu.state = .running) :
    x.1.flow.fallsThrough = true ∧ c.continuation = decoded.nextAddress := by
  obtain ⟨hd, -, -⟩ := Registry.of_lookup_full hlookup
  constructor
  · rw [Catalogue.flow_eq x.1 hd]
    exact Exec.fallsThrough_of_perform (perform_of_completed hdecode h) hjump hstate
  · rw [Context.continuation, hjump, Option.getD_none,
      (changes_of_completed hlookup hdecode h).nextPc, Exec.nextPc_ready hdecode]

end Run

end ColdFire
