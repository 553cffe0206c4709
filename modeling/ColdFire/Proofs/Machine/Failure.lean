import ColdFire.Proofs.Execution.Ending
import ColdFire.Proofs.Execution.Undo
import ColdFire.Proofs.Instruction.Decodable

namespace ColdFire

/-- The instructions that are decoded and encoded, and never executed. -/
def Catalogue.unsimulated : List String := ["cpushl", "intouch", "wddata", "strldsr"]

theorem Catalogue.named_unsimulated : ∀ d ∈ all, d.operation = .unsimulated →
    d.format.ownNames = [] ∧ d.mnemonic ∈ unsimulated :=
  List.all_iff_forall_prop.mp rfl

variable {β : Type}

namespace WordSource

variable {s : WordSource} {i : Nat} {t : Trap}

theorem isBusError_ofWords {opcode : UInt16} {words : List UInt16} {address : UInt32}
    (h : (ofWords opcode words address).extension i = .error t) : t.IsBusError := by
  simp only [ofWords] at h
  split at h
  · cases h
  · cases h
    exact ⟨_, _, rfl⟩

inductive IsStored [Bus β] : WordSource → Prop
  | list {words : List UInt16} {address : UInt32} {s : WordSource}
      (h : ofList? words address = some s) : IsStored s
  | memory {bus : β} {address : UInt32} {s : WordSource} (h : ofBus bus address = .ok s) :
      IsStored s

theorem IsStored.isBusError [Bus β] (hs : IsStored (β := β) s) (h : s.extension i = .error t) :
    t.IsBusError := by
  cases hs with
  | @list words address _ hlist =>
    cases words with
    | nil => cases hlist
    | cons opcode rest =>
      cases hlist
      exact isBusError_ofWords h
  | @memory bus address _ hbus =>
    unfold ofBus at hbus
    cases hfetch : fetch bus .word address with
    | error _ =>
      rw [hfetch] at hbus
      cases hbus
    | ok opcode =>
      rw [hfetch] at hbus
      cases hbus
      exact isBusError_inMemory h

end WordSource

namespace Definition

variable {d : Definition} {s : WordSource} {c c' : Cursor} {t : Trap}

theorem explains_of_decode (hd : d.Regular) (hfits : d.fits s.opcode = true)
    (h : d.decode s c = .error t c') : s.Explains t := by
  unfold decode at h
  split at h
  · cases h
  · rename_i hread
    cases h
    exact soundOn_read hd hfits _ _ _ hread

end Definition

namespace Registry

variable {s : WordSource} {c c' : Cursor} {tier : Tier} {t : Trap}

theorem extension_of_decode_error (h : full.decode tier s c = .error t c') :
    ∃ i, s.extension i = .error t := by
  cases hlookup : full.lookup s.opcode tier with
  | none =>
    rw [decode, hlookup] at h
    cases h
  | some x =>
    rw [decode_of_lookup hlookup] at h
    split at h
    · cases h
    · cases h
    · rename_i hreserved hdecode
      cases h
      obtain ⟨hd, hfits, -⟩ := of_lookup_full hlookup
      rcases Definition.explains_of_decode (Catalogue.regular _ hd) hfits hdecode with
        hword | ⟨_, _, _, rfl⟩
      · exact hword
      · exact absurd rfl (hreserved _ _ _)

end Registry

variable [Bus β]

namespace Exec

variable {cpu : Cpu} {bus : β} {pc : UInt32} {opcode : UInt16} {x : Entry} {tier : Tier}
  {fault : Fault} {c : Context β}

/-- A failure of an instruction at `pc` that is no disagreement between catalogue, decoders and
operations. -/
def Expected (pc : UInt32) : Fault → Prop
  | .exception _ | .trap (.bus ..) | .trap (.reserved ..) => True
  | .trap (.unsimulated name address) => name ∈ Catalogue.unsimulated ∧ address = pc
  | .trap (.logic _) => False

/-- No operand is missing and none is out of place: whatever a looked-up instruction fails with is
an exception, a refusal of the bus or of its own words, or that it is not simulated. -/
theorem expected_of_execute (hlookup : Registry.full.lookup opcode tier = some x)
    (h : execute x.1 (.start cpu bus pc opcode) = .error fault c) : Expected pc fault := by
  obtain ⟨hd, hfits, -⟩ := Registry.of_lookup_full hlookup
  cases hdecode : x.1.decode (.inMemory bus opcode pc) .start with
  | error t cursor =>
    rw [execute_of_decode_error hdecode] at h
    cases h
    rcases Definition.explains_of_decode (Catalogue.regular _ hd) hfits hdecode with
      ⟨i, hword⟩ | ⟨_, _, _, rfl⟩
    · obtain ⟨_, _, rfl⟩ := WordSource.isBusError_inMemory hword
      trivial
    · trivial
  | ok decoded cursor =>
    rw [execute_of_decode hdecode] at h
    obtain ⟨-, hfault⟩ := (within_of_decode cpu hlookup hdecode).of_error h
    cases fault with
    | exception e => trivial
    | trap t =>
      cases t with
      | bus _ _ => trivial
      | logic _ | reserved _ _ _ => exact hfault.elim
      | unsimulated name address =>
        have hop : x.1.operation = .unsimulated := hfault
        rw [hop] at h
        cases h
        obtain ⟨hown, hname⟩ := Catalogue.named_unsimulated x.1 hd hop
        obtain ⟨-, haddress, -⟩ := Definition.read_of_decode hdecode
        rw [Definition.mnemonic_of_decode hdecode hown]
        exact ⟨hname, haddress⟩

end Exec

namespace Run

variable {m m' : Machine β} {t : Trap}

theorem isBusError_of_enterException {e : Exception} {faultPc : UInt32}
    (h : enterException e faultPc m = .error t m') : t.IsBusError := by
  rw [enterException_eq] at h
  split at h
  · rename_i hfetch
    cases h
    exact isBusError_of_fetch hfetch
  · split at h
    · rename_i hfetch
      cases h
      exact isBusError_of_fetch hfetch
    · split at h
      · rename_i hstore
        cases h
        exact isBusError_of_store hstore
      · split at h
        · cases h
        · rename_i hstore
          split at h
          · cases h
            exact isBusError_of_store hstore
          · rename_i hundo
            cases h
            exact isBusError_of_store hundo

/-- A failure that a step at `pc` may report. -/
def Reportable (pc : UInt32) (t : Trap) : Prop :=
  t.IsBusError ∨ ∃ name ∈ Catalogue.unsimulated, t = .unsimulated name pc

theorem reportable_of_endingOf {x : Entry} {opcode : UInt16} {tier : Tier} {bus : β}
    (hlookup : Registry.full.lookup opcode tier = some x)
    (h : endingOf x.1 opcode m = .failed t bus) : Reportable m.cpu.pc t := by
  unfold endingOf at h
  split at h
  · cases h
  · rename_i fault c hexec
    have hexpected := Exec.expected_of_execute hlookup hexec
    split at h
    · rename_i hrollback
      cases h
      exact .inl (isBusError_of_rollback hrollback)
    · cases fault with
      | exception e => cases h
      | trap t' =>
        cases t' with
        | bus _ _ =>
          cases h
          exact .inl ⟨_, _, rfl⟩
        | logic _ => exact hexpected.elim
        | reserved _ _ _ => cases h
        | unsimulated name address =>
          cases h
          obtain ⟨hname, rfl⟩ := hexpected
          exact .inr ⟨name, hname, rfl⟩

theorem reportable_of_ending {bus : β} (h : ending .full m = .failed t bus) :
    Reportable m.cpu.pc t := by
  unfold ending at h
  split at h
  · rename_i hfetch
    cases h
    exact .inl (isBusError_of_fetch hfetch)
  · split at h
    · cases h
    · rename_i hlookup
      split at h
      · cases h
      · exact reportable_of_endingOf hlookup h

theorem reportable_of_step (h : step .full m = .error t m') : Reportable m.cpu.pc t := by
  by_cases running : m.cpu.state = .running
  · rw [step_of_running running] at h
    cases hending : ending .full m with
    | completed c =>
      rw [hending] at h
      cases h
    | raised e faultPc bus =>
      rw [hending] at h
      exact .inl (isBusError_of_enterException (enter_eq_error.1 h))
    | failed t' bus =>
      rw [hending] at h
      cases h
      exact reportable_of_ending hending
  · rw [step_of_not_running running] at h
    cases h

/-- Catalogue, decoders and operations never disagree. The decoder fails only with what one of its
words cannot be read for, which for the words of a list or of a memory is an error of the bus; no
instruction that is looked up lacks an operand, or has one that it cannot decode or find; and a step
fails only with an error of the bus or on the four instructions that are not executed. -/
theorem fails_only_outside (tier : Tier) (m : Machine β) :
    (∀ s c t c', Registry.full.decode tier s c = .error t c' → ∃ i, s.extension i = .error t) ∧
    (∀ s, WordSource.IsStored (β := β) s → ∀ c t c', Registry.full.decode tier s c = .error t c' →
      ∃ addr cause, t = .bus addr cause) ∧
    (∀ opcode x cpu pc fault c, Registry.full.lookup opcode tier = some x →
      Exec.execute x.1 (.start cpu m.bus pc opcode) = .error fault c →
      ∀ e, fault ≠ .trap (.logic e)) ∧
    ∀ t m', step .full m = .error t m' → (∃ addr cause, t = .bus addr cause) ∨
      ∃ name ∈ ["cpushl", "intouch", "wddata", "strldsr"], t = .unsimulated name m.cpu.pc := by
  refine ⟨fun _ _ _ _ h => Registry.extension_of_decode_error h, ?_, ?_, ?_⟩
  · intro s hs c t c' h
    obtain ⟨i, hword⟩ := Registry.extension_of_decode_error h
    exact hs.isBusError hword
  · rintro opcode x cpu pc _ c hlookup h e rfl
    exact Exec.expected_of_execute hlookup h
  · intro t m' h
    exact reportable_of_step h

set_option maxRecDepth 1000 in
theorem fails_only_outside_wddata :
    let m : Machine LinearMemory := ⟨{ Cpu.new {} with pc := 0x20 },
      (LinearMemory.zeroed 0x40 0).setBytes 0x20 [0xFB, 0x10]⟩
    ∃ t m', step .full m = .error t m' ∧ t = .unsimulated "wddata" 0x20 ∧
      ((∃ addr cause, t = .bus addr cause) ∨
        ∃ name ∈ ["cpushl", "intouch", "wddata", "strldsr"], t = .unsimulated name 0x20) := by
  intro m
  have hlookup : Registry.full.lookup 0xFB10 .c = some (Catalogue.all[139], 139) :=
    Registry.lookup_of_claims (by decide) (by decide)
  have hfetch : fetch m.bus .word m.cpu.pc = .ok 0xFB10 := by decide
  have hfailed : (endingOf (Catalogue.all[139]) 0xFB10 m).failed? =
      some (.unsimulated "wddata" 0x20) := by decide
  obtain ⟨t, bus, hfails⟩ := Ending.eq_failed
    (show (endingOf (Catalogue.all[139]) 0xFB10 m).failed?.isSome = true by rw [hfailed]; rfl)
  have ht : t = .unsimulated "wddata" 0x20 := by
    rw [hfails] at hfailed
    exact Option.some.inj hfailed
  have hending := (ending_of_lookup hfetch hlookup rfl).trans hfails
  have hstep : step .full m = .error t ⟨m.cpu, bus⟩ := by
    rw [step_of_running rfl, hending]
    rfl
  obtain ⟨-, -, -, hstep'⟩ := fails_only_outside .c m
  exact ⟨t, _, hstep, ht, hstep' t _ hstep⟩

end Run

end ColdFire
