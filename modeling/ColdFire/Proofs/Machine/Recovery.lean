import ColdFire.Proofs.Execution.Ending

namespace ColdFire

namespace Run

variable {β : Type} [Bus β] {m m' : Machine β}

/-- A step that fails changes nothing, however far its instruction or the entry of its exception had
come. -/
theorem step_error [LawfulBus β] {t : Trap} (h : step .full m = .error t m') : m' = m := by
  by_cases running : m.cpu.state = .running
  · rw [step_of_running running] at h
    have hrestores := ending_restores m
    cases hending : ending .full m with
    | completed c =>
      rw [hending] at h
      cases h
    | raised e faultPc bus =>
      rw [hending] at h hrestores
      obtain ⟨rfl, -⟩ := hrestores
      exact enterException_error (enter_eq_error.1 h)
    | failed t bus =>
      rw [hending] at h hrestores
      cases hrestores
      cases h
      rfl
  · rw [step_of_not_running running] at h
    cases h

set_option maxRecDepth 1000 in
/-- Of two listed registers the first is stored and taken back, because the second does not fit into
memory. -/
theorem step_error_storeList :
    let m : Machine LinearMemory := ⟨(Cpu.new {}).setAddrReg 0 4,
      (LinearMemory.zeroed 8 0).setBytes 0 [0x48, 0xD0, 0x00, 0x03]⟩
    ∃ t m', step .full m = .error t m' ∧ m' = m := by
  intro m
  have hlookup : Registry.full.lookup 0x48D0 .c = some (Catalogue.all[65], 65) :=
    Registry.lookup_of_claims (by decide) (by decide)
  have hfetch : fetch m.bus .word m.cpu.pc = .ok 0x48D0 := by decide
  obtain ⟨t, bus, hfails⟩ := Ending.eq_failed
    (show (endingOf (Catalogue.all[65]) 0x48D0 m).failed?.isSome = true by decide)
  have hending := (ending_of_lookup hfetch hlookup rfl).trans hfails
  have hstep : step .full m = .error t ⟨m.cpu, bus⟩ := by
    rw [step_of_running rfl, hending]
    rfl
  exact ⟨t, _, hstep, step_error hstep⟩

/-- A step whose instruction raises an exception does what entering the exception alone would have
done: it returns to the instruction, or behind a trap, and eight bytes are written. -/
theorem step_of_raised [LawfulBus β] [ByteBus β] {e : Exception} {faultPc : UInt32} {bus : β}
    (running : m.cpu.state = .running) (h : ending .full m = .raised e faultPc bus) :
    let returnPc := match e with
      | .trap _ => m.cpu.pc + 2
      | _ => m.cpu.pc
    step .full m = enter e returnPc m ∧
      ∀ state m', step .full m = .ok state m' →
        ∀ a, (∀ k < 8, a ≠ m.cpu.frameSp + UInt32.ofNat k) →
          ByteBus.byte? m'.bus a = ByteBus.byte? m.bus a := by
  intro returnPc
  have hrestores := ending_restores m
  rw [h] at hrestores
  obtain ⟨rfl, rfl⟩ := hrestores
  have hstep : step .full m = enter e returnPc m := by
    rw [step_of_running running, h]
    cases e <;> rfl
  refine ⟨hstep, ?_⟩
  intro state m' hok a ha
  rw [hstep] at hok
  exact byte?_enterException (enter_eq_ok.1 hok).1 ha

set_option maxRecDepth 1000 in
theorem step_of_raised_divide :
    let m : Machine LinearMemory := ⟨{ (Cpu.new {}).setAddrReg 0 0x30 with pc := 0x20 }.setSp 0x40,
      (LinearMemory.zeroed 0x40 0).setBytes 0x20 [0x80, 0xD8]⟩
    (∃ bus, ending .full m = .raised .divideByZero 0x20 bus) ∧
      step .full m = enter .divideByZero 0x20 m := by
  intro m
  have hlookup : Registry.full.lookup 0x80D8 .c = some (Catalogue.all[50], 50) :=
    Registry.lookup_of_claims (by decide) (by decide)
  have hfetch : fetch m.bus .word m.cpu.pc = .ok 0x80D8 := by decide
  obtain ⟨bus, hraises⟩ := Ending.eq_raised
    (show (endingOf (Catalogue.all[50]) 0x80D8 m).raised? = some (.divideByZero, 0x20) by
      decide)
  have hending := (ending_of_lookup hfetch hlookup rfl).trans hraises
  exact ⟨⟨bus, hending⟩, (step_of_raised rfl hending).1⟩

end Run

end ColdFire
