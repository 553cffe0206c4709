import ColdFire.Proofs.Execution.Ending
import ColdFire.Proofs.Execution.Follow

namespace ColdFire

open StandIn (Alike)

variable {β γ : Type} [Bus β] [Bus γ] [StandIn β γ]

/-- The second ending is the first one on a bus that is alike. What follows a failure is left open. -/
def Ending.Follows (ending : Ending β) (ending' : Ending γ) : Prop :=
  match ending with
  | .completed c => ∃ b, ending' = .completed (c.over b) ∧ Alike c.bus b
  | .raised e faultPc bus => ∃ b, ending' = .raised e faultPc b ∧ Alike bus b
  | .failed .. => True

namespace Run

variable {r : Registry} {m m' : Machine β} {b : γ} {state : RunState} {n : Nat}
  {log : List (RunState × Cpu)}

theorem endingOf_follows (d : Definition) (opcode : UInt16) (h : Alike m.bus b) :
    (endingOf d opcode m).Follows (endingOf d opcode (⟨m.cpu, b⟩ : Machine γ)) := by
  have hexec := Exec.Follows.execute d (.start m.cpu m.bus m.cpu.pc opcode) b h
  unfold endingOf
  cases hrun : Exec.execute d (.start m.cpu m.bus m.cpu.pc opcode) with
  | ok u c =>
    rw [hrun] at hexec
    obtain ⟨b₁, hexec, hb₁⟩ := hexec
    change Exec.execute d (.start m.cpu b m.cpu.pc opcode) = _ at hexec
    rw [hexec]
    exact ⟨b₁, rfl, hb₁⟩
  | error fault c =>
    rw [hrun] at hexec
    dsimp only
    cases hundo : rollback c.journal c.bus with
    | error t bus => trivial
    | ok u bus =>
      rcases hexec with hbus | ⟨b₁, hexec, hb₁⟩
      · -- An error of the bus is no exception, so the step fails.
        cases fault with
        | exception e => exact hbus.elim
        | trap t =>
          obtain ⟨addr, cause, rfl⟩ := hbus
          trivial
      · obtain ⟨b₂, hundo', hb₂⟩ := rollback_of_alike hb₁ hundo
        change Exec.execute d (.start m.cpu b m.cpu.pc opcode) = _ at hexec
        rw [hexec]
        change rollback (c.over b₁).journal (c.over b₁).bus = _ at hundo'
        dsimp only
        rw [hundo']
        dsimp only
        cases delivered fault with
        | exception e => exact ⟨b₂, rfl, hb₂⟩
        | trap t => trivial

theorem ending_follows (r : Registry) (h : Alike m.bus b) :
    (ending r m).Follows (ending r (⟨m.cpu, b⟩ : Machine γ)) := by
  unfold ending
  cases hfetch : fetch m.bus .word m.cpu.pc with
  | error t => trivial
  | ok word =>
    dsimp only
    rw [fetch_of_alike h hfetch]
    dsimp only
    cases r.lookup word.toUInt16 m.cpu.config.tier with
    | none => exact ⟨b, rfl, h⟩
    | some x =>
      dsimp only
      split
      · exact ⟨b, rfl, h⟩
      · exact endingOf_follows x.1 word.toUInt16 h

theorem enterException_follows {e : Exception} {faultPc : UInt32} (h : Alike m.bus b)
    (henter : enterException e faultPc m = .ok () m') :
    ∃ b₁, enterException e faultPc (⟨m.cpu, b⟩ : Machine γ) = .ok () ⟨m'.cpu, b₁⟩ ∧
      Alike m'.bus b₁ := by
  rw [enterException_eq] at henter ⊢
  split at henter
  · cases henter
  rename_i handler hhandler
  split at henter
  · cases henter
  rename_i saved hsaved
  split at henter
  · cases henter
  rename_i bus hpc
  split at henter
  swap
  · split at henter <;> cases henter
  rename_i bus' hword
  cases henter
  -- both reads and both writes have succeeded, so they do on the other bus
  obtain ⟨b₁, hpc', hb₁⟩ := store_of_alike h hpc
  obtain ⟨b₂, hword', hb₂⟩ := store_of_alike hb₁ hword
  refine ⟨b₂, ?_, hb₂⟩
  rw [fetch_of_alike h hhandler]
  dsimp only
  rw [fetch_of_alike h hsaved]
  dsimp only
  rw [hpc']
  dsimp only
  rw [hword']

theorem step_follows (h : Alike m.bus b) (hstep : step r m = .ok state m') :
    ∃ b₁, step r (⟨m.cpu, b⟩ : Machine γ) = .ok state ⟨m'.cpu, b₁⟩ ∧ Alike m'.bus b₁ := by
  by_cases running : m.cpu.state = .running
  · rw [step_of_running running] at hstep
    rw [step_of_running (m := (⟨m.cpu, b⟩ : Machine γ)) running]
    have hfollows := ending_follows r h
    cases hending : ending r m with
    | completed c =>
      rw [hending] at hstep hfollows
      obtain ⟨b₁, hfollows, hb₁⟩ := hfollows
      cases hstep
      rw [hfollows]
      exact ⟨b₁, rfl, hb₁⟩
    | raised e faultPc bus =>
      rw [hending] at hstep hfollows
      obtain ⟨b₁, hfollows, hb₁⟩ := hfollows
      obtain ⟨hentered, rfl⟩ := enter_eq_ok.1 hstep
      obtain ⟨b₂, hentered', hb₂⟩ := enterException_follows hb₁ hentered
      rw [hfollows]
      exact ⟨b₂, enter_eq_ok.2 ⟨hentered', rfl⟩, hb₂⟩
    | failed t bus =>
      rw [hending] at hstep
      cases hstep
  · rw [step_of_not_running running] at hstep
    cases hstep
    exact ⟨b, step_of_not_running running, h⟩

/-- Some steps, one after another: what each of them gives, and the processor after it. -/
def record (r : Registry) : Nat → Run β (List (RunState × Cpu))
  | 0 => return []
  | n + 1 => do
    let state ← step r
    let cpu ← Run.cpu
    return (state, cpu) :: (← record r n)

omit [Bus γ] [StandIn β γ] in
theorem record_succ_eq_ok : record r (n + 1) m = .ok log m' ↔
    ∃ state m₁ rest, step r m = .ok state m₁ ∧ record r n m₁ = .ok rest m' ∧
      log = (state, m₁.cpu) :: rest := by
  simp only [record, bind, EStateM.bind, Run.cpu]
  cases step r m with
  | error t m₁ =>
    constructor
    · intro h
      cases h
    · rintro ⟨state, m₁, rest, hstep, -⟩
      cases hstep
  | ok state m₁ =>
    dsimp only
    cases hrest : record r n m₁ with
    | error t m₂ =>
      constructor
      · intro h
        cases h
      · rintro ⟨state', m₁', rest, hstep, h, -⟩
        cases hstep
        cases hrest.symm.trans h
    | ok rest m₂ =>
      constructor
      · intro h
        cases h
        exact ⟨state, m₁, rest, rfl, hrest, rfl⟩
      · rintro ⟨state', m₁', rest', hstep, h, rfl⟩
        cases hstep
        cases hrest.symm.trans h
        rfl

theorem record_follows (h : Alike m.bus b) (hrun : record r n m = .ok log m') :
    ∃ b', record r n (⟨m.cpu, b⟩ : Machine γ) = .ok log ⟨m'.cpu, b'⟩ ∧ Alike m'.bus b' := by
  -- step by step, the two buses staying alike
  induction n generalizing m b log with
  | zero =>
    cases hrun
    exact ⟨b, rfl, h⟩
  | succ n ih =>
    obtain ⟨state, m₁, rest, hstep, hrest, rfl⟩ := record_succ_eq_ok.1 hrun
    obtain ⟨b₁, hstep', hb₁⟩ := step_follows h hstep
    obtain ⟨b', hrest', hb'⟩ := ih hb₁ hrest
    exact ⟨b', record_succ_eq_ok.2 ⟨state, _, rest, hstep', hrest', rfl⟩, hb'⟩

/-- What runs in memory without gaps, runs in an image of it: as many steps give the same results and
leave the processor alike, each of them, and afterwards the image again maps what memory holds. -/
theorem record_in_image {m m' : Machine LinearMemory} {img : Image}
    (hlimit : m.bus.limit ≤ 2 ^ 32) (hbytes : ∀ a, img.get? a = m.bus.byte? a)
    (hrun : record r n m = .ok log m') :
    ∃ img', record r n ⟨m.cpu, img⟩ = .ok log ⟨m'.cpu, img'⟩ ∧
      ∀ a, img'.get? a = m'.bus.byte? a := by
  have himage : m.bus.HasImage img := ⟨hlimit, hbytes⟩
  obtain ⟨img', hrun', himage'⟩ := record_follows (b := img) himage hrun
  have himage' : m'.bus.HasImage img' := himage'
  exact ⟨img', hrun', himage'.bytes⟩

set_option maxRecDepth 1000 in
theorem record_in_image_trap :
    let m : Machine LinearMemory :=
      ⟨{ (((Cpu.new {}).setDataReg 0 0x1234).setAddrReg 0 0x60).setSp 0xC0 with pc := 0x44 },
        ((LinearMemory.zeroed 0x100 0x40).setBytes 4 [0x30, 0x80, 0x4E, 0x40]).setBytes 0x40
          [0, 0, 0, 0x50]⟩
    ∃ log m' img', m.bus.limit ≤ 2 ^ 32 ∧ record .full 2 m = .ok log m' ∧
      log.map (·.2.pc) = [0x46, 0x50] ∧
      record .full 2 ⟨m.cpu, Image.ofBytes m.bus.base m.bus.toList⟩ = .ok log ⟨m'.cpu, img'⟩ ∧
      img'.get? 0x61 = some 0x34 := by
  intro m
  have hwrites : Registry.full.lookup 0x3080 .c = some (Catalogue.all[55], 55) :=
    Registry.lookup_of_claims (by decide +kernel) (by decide +kernel)
  have htraps : Registry.full.lookup 0x4E40 .c = some (Catalogue.all[129], 129) :=
    Registry.lookup_of_claims (by decide +kernel) (by decide +kernel)
  have hfetch : fetch m.bus .word m.cpu.pc = .ok 0x3080 := by decide +kernel
  obtain ⟨c, hcompletes, hc⟩ := Ending.eq_completed
    (p := fun c =>
      let m₁ : Machine LinearMemory := ⟨{ c.cpu with pc := c.continuation }, c.bus⟩
      decide (m₁.cpu.state = .running ∧ m₁.cpu.pc = 0x46 ∧ m₁.cpu.config.tier = .c ∧
        fetch m₁.bus .word m₁.cpu.pc = .ok 0x4E40 ∧
        (endingOf (Catalogue.all[129]) 0x4E40 m₁).raised? = some (.trap 0, 0x48) ∧
        EStateM.run' (enter (.trap 0) 0x48 >>= fun _ => (fun m' : Machine LinearMemory =>
          decide (m'.cpu.pc = 0x50 ∧ m'.bus.byte? 0x61 = some 0x34)) <$> get) m₁ = some true))
    (show (endingOf (Catalogue.all[55]) 0x3080 m).completed?.any _ = true by decide +kernel)
  let m₁ : Machine LinearMemory := ⟨{ c.cpu with pc := c.continuation }, c.bus⟩
  obtain ⟨hrunning, hpc, htier, hfetch₁, hraised, henters⟩ := of_decide_eq_true hc
  have hstep : step .full m = .ok m₁.cpu.state m₁ := by
    have hending := (ending_of_lookup hfetch hwrites rfl).trans hcompletes
    rw [step_of_running rfl, hending]
    rfl
  obtain ⟨bus, hraises⟩ := Ending.eq_raised hraised
  have hending : ending .full m₁ = .raised (.trap 0) 0x48 bus :=
    (ending_of_lookup hfetch₁ (htier ▸ htraps) rfl).trans hraises
  have hrestores := ending_restores m₁
  rw [hending] at hrestores
  obtain ⟨rfl, -⟩ := hrestores
  obtain ⟨state, m', hentry, hm'⟩ := of_run' henters
  obtain ⟨hpc', hbyte⟩ := of_decide_eq_true hm'
  have hstep₁ : step .full m₁ = .ok state m' := by
    rw [step_of_running hrunning, hending]
    exact hentry
  have hlog : record .full 2 m = .ok [(m₁.cpu.state, m₁.cpu), (state, m'.cpu)] m' :=
    record_succ_eq_ok.2 ⟨_, _, _, hstep, record_succ_eq_ok.2 ⟨_, _, _, hstep₁, rfl, rfl⟩, rfl⟩
  have hlimit : m.bus.limit ≤ 2 ^ 32 := by decide
  obtain ⟨img', hlog', hbytes'⟩ :=
    record_in_image hlimit (LinearMemory.hasImage_ofBytes hlimit).bytes hlog
  refine ⟨_, m', img', hlimit, hlog, ?_, hlog', (hbytes' 0x61).trans hbyte⟩
  rw [List.map_cons, List.map_cons, List.map_nil, hpc', ← hpc]

end Run

end ColdFire
