import ColdFire.Proofs.Machine.Instruction

namespace ColdFire

theorem regIndex_ofNat_ne {i j : Nat} (hi : i < 8) (hj : j < 8) (hne : i ≠ j) :
    regIndex (UInt8.ofNat i) ≠ regIndex (UInt8.ofNat j) := by
  have hval (k : Nat) (hk : k < 8) : (regIndex (UInt8.ofNat k)).val = k := by
    have htoNat : (UInt8.ofNat k).toNat = k :=
      UInt8.toNat_ofNat_of_lt' (Nat.lt_trans hk (by decide))
    rw [val_regIndex (htoNat.symm ▸ hk), htoNat]
  intro h
  exact hne ((hval i hi).symm.trans ((congrArg Fin.val h).trans (hval j hj)))

namespace Cpu

variable {cpu : Cpu} {i j : Nat} {v : UInt32} {value : Nat → UInt32} {members : List Nat}

def loadedWith (cpu : Cpu) (value : Nat → UInt32) (members : List Nat) : Cpu :=
  members.foldl (fun cpu i => cpu.setListed i (value i)) cpu

theorem listed_setListed (hi : i < 16) (hj : j < 16) :
    (cpu.setListed i v).listed j = if i = j then v else cpu.listed j := by
  by_cases hij : i = j
  · subst hij
    rw [if_pos rfl, setListed, listed]
    split
    · exact dataReg_setDataReg _ _ _
    · exact addrReg_setAddrReg _ _ _
  · rw [if_neg hij, setListed, listed, listed]
    by_cases hi' : i < 8
    · rw [if_pos hi']
      by_cases hj' : j < 8
      · rw [if_pos hj', if_pos hj']
        exact dataReg_setDataReg_of_ne _ _ _ (regIndex_ofNat_ne hi' hj' hij)
      · rw [if_neg hj', if_neg hj']
        rfl
    · rw [if_neg hi']
      by_cases hj' : j < 8
      · rw [if_pos hj', if_pos hj']
        rfl
      · rw [if_neg hj', if_neg hj']
        exact addrReg_setAddrReg_of_ne _ _ _ (regIndex_ofNat_ne (by omega) (by omega) (by omega))

theorem listed_loadedWith (hmembers : ∀ i ∈ members, i < 16) (hj : j < 16) :
    (cpu.loadedWith value members).listed j = if j ∈ members then value j else cpu.listed j := by
  induction members generalizing cpu with
  | nil => rfl
  | cons i rest ih =>
    obtain ⟨hi, hrest⟩ := List.forall_mem_cons.mp hmembers
    change ((cpu.setListed i (value i)).loadedWith value rest).listed j = _
    rw [ih hrest, listed_setListed hi hj]
    grind

theorem loadedWith_eq (cpu : Cpu) (value : Nat → UInt32) (members : List Nat) :
    ∃ d a, cpu.loadedWith value members = { cpu with d := d, a := a } := by
  induction members generalizing cpu with
  | nil => exact ⟨_, _, rfl⟩
  | cons i rest ih =>
    obtain ⟨d, a, h⟩ := ih (cpu.setListed i (value i))
    refine ⟨d, a, h.trans ?_⟩
    unfold setListed
    split <;> rfl

end Cpu

/-- Neighbouring longs from an address on hold the registers of a list. -/
def Cpu.SavedAt {β : Type} [Bus β] (cpu : Cpu) (bus : β) (members : List Nat) (addr : UInt32) :
    Prop :=
  ∀ j i, members[j]? = some i →
    Bus.read bus .long (addr + UInt32.ofNat (4 * j)) = .ok (cpu.listed i)

theorem Cpu.savedAt_cons {β : Type} [Bus β] {cpu : Cpu} {bus : β} {i : Nat} {rest : List Nat}
    {addr : UInt32} : cpu.SavedAt bus (i :: rest) addr ↔
      Bus.read bus .long addr = .ok (cpu.listed i) ∧ cpu.SavedAt bus rest (addr + 4) := by
  have hzero : addr + UInt32.ofNat (4 * 0) = addr := UInt32.add_zero addr
  constructor
  · intro h
    refine ⟨hzero ▸ h 0 i rfl, fun j k hj => ?_⟩
    rw [← add_ofNat_four]
    exact h (j + 1) k hj
  · rintro ⟨hfirst, hrest⟩ (_ | j) k hk
    · cases hk
      rw [hzero]
      exact hfirst
    · rw [Nat.mul_succ, add_ofNat_four]
      exact hrest j k hk

namespace Exec

section Load

variable {β : Type} [Bus β] {c : Context β} {addr : UInt32} {members : List Nat}

/-- Loading a list that was saved by another processor gives the registers the values there. -/
theorem loadListed_eq {saver : Cpu} (h : saver.SavedAt c.bus members addr) :
    loadListed members addr c =
      .ok () { c with cpu := c.cpu.loadedWith saver.listed members } := by
  -- register by register; loading changes no memory, so the rest is still saved
  induction members generalizing addr c with
  | nil => rfl
  | cons i rest ih =>
    obtain ⟨hfirst, hrest⟩ := Cpu.savedAt_cons.1 h
    rw [loadListed, bind_of_ok (readMem_eq_ok.2 ⟨hfirst, rfl⟩)]
    exact ih (c := { c with cpu := c.cpu.setListed i (saver.listed i) }) hrest

end Load

section Store

variable {c c' : Context LinearMemory} {addr a w : UInt32} {members : List Nat}

theorem read_of_storeListed (h : storeListed members addr c = .ok () c')
    (hbefore : 4 ≤ (addr - a).toNat) (hend : (addr - a).toNat + 4 * members.length < 2 ^ 32) :
    Bus.read c'.bus .long a = .ok w ↔ Bus.read c.bus .long a = .ok w := by
  induction members generalizing addr c with
  | nil =>
    cases h
    rfl
  | cons i rest ih =>
    rw [storeListed, bind_cpu, bind_eq_ok] at h
    obtain ⟨_, c₁, hwrite, hrest⟩ := h
    obtain ⟨bus, journal, hbus, rfl⟩ := of_writeMem hwrite
    rw [List.length_cons] at hend
    have haddr := addr.toNat_lt
    have ha := a.toNat_lt
    -- distances are taken modulo 2 ^ 32, so the list must not come round to the long in front of it
    have hnext : (addr + 4 - a).toNat = (addr - a).toNat + 4 := by
      rw [UInt32.toNat_sub] at hend ⊢
      rw [UInt32.toNat_sub, UInt32.toNat_add, show (4 : UInt32).toNat = 4 from rfl]
      omega
    have hbehind : 4 ≤ (a - addr).toNat := by
      rw [UInt32.toNat_sub] at hend hbefore ⊢
      omega
    rw [ih hrest (by omega) (by omega)]
    exact LinearMemory.read_write_of_apart hbus hbehind hbefore

/-- Saving a list writes its registers one behind another, and nothing else. -/
theorem of_storeListed (hlen : 4 * members.length < 2 ^ 32)
    (h : storeListed members addr c = .ok () c') :
    (∃ bus journal, c' = { c with bus := bus, journal := journal }) ∧
      c.cpu.SavedAt c'.bus members addr ∧
      ∀ a, (∀ k < 4 * members.length, a ≠ addr + UInt32.ofNat k) →
        ByteBus.byte? c'.bus a = ByteBus.byte? c.bus a := by
  induction members generalizing addr c with
  | nil =>
    cases h
    exact ⟨⟨_, _, rfl⟩, nofun, fun _ _ => rfl⟩
  | cons i rest ih =>
    rw [storeListed, bind_cpu, bind_eq_ok] at h
    obtain ⟨_, c₁, hwrite, hrest⟩ := h
    obtain ⟨bus, journal, hbus, rfl⟩ := of_writeMem hwrite
    rw [List.length_cons] at hlen
    obtain ⟨⟨bus', journal', rfl⟩, hsaved, hother⟩ := ih (by omega) hrest
    refine ⟨⟨_, _, rfl⟩, ?_, fun a ha => ?_⟩
    · have hahead : (addr + 4 - addr).toNat = 4 := by
        rw [UInt32.add_comm, UInt32.add_sub_cancel]
        rfl
      refine Cpu.savedAt_cons.2 ⟨?_, hsaved⟩
      rw [read_of_storeListed hrest (by omega) (by omega), ← Bus.value_bytes_long (c.cpu.listed i)]
      exact LinearMemory.read_write hbus
    · rw [List.length_cons] at ha
      have hrest' : ByteBus.byte? bus' a = ByteBus.byte? bus a := by
        refine hother a fun k hk => ?_
        rw [← add_ofNat_four]
        exact ha (k + 4) (by omega)
      refine hrest'.trans (ByteBus.byte?_write hbus a fun k hk => ha k ?_)
      have hk : k < 4 := hk
      omega

end Store

end Exec

namespace Catalogue

theorem lists_named : ∀ x ∈ all, "movem" ∈ x.mnemonic :: x.format.ownNames → x.isQuiet = true ∧
    (x.operation = .storeList ∧ x.dstDemand = .modes (.ind ∪ .disp) ∨
      x.operation = .loadList ∧ x.dstDemand = .list) := by
  decide +kernel

end Catalogue

namespace Machine

variable {m m' : Machine LinearMemory} {d : Decoded} {mask : UInt16} {ea : Ea} {state : RunState}

theorem At.saves (h : m.At d) (hname : d.mnemonic = "movem") (hsrc : d.src = some (.regList mask))
    (hstep : Run.step .full m = .ok state m') :
    ∃ ea addr pc, d.dst = some ea ∧ ea.At m.cpu .long (m.cpu.pc + 2) (.mem addr) ∧
      m'.cpu = { m.cpu with pc := pc } ∧
      m.cpu.SavedAt m'.bus (RegList.members mask) addr ∧
      ∀ a, (∀ k < 4 * (RegList.members mask).length, a ≠ addr + UInt32.ofNat k) →
        ByteBus.byte? m'.bus a = ByteBus.byte? m.bus a := by
  obtain ⟨x, c, c', hx⟩ := h.completes hstep fun x hx hnamed =>
    (Catalogue.lists_named x hx (hname ▸ hnamed)).1
  obtain ⟨-, ⟨hop, hdemand⟩ | ⟨hop, -⟩⟩ :=
    Catalogue.lists_named x hx.listed (hname ▸ hx.named)
  · have hmeets := Demand.meets_of_admits (d := .modes .control) (by decide) (hdemand ▸ hx.dst)
    obtain ⟨ea, hdst, -⟩ := id hmeets
    obtain ⟨addr, haddr, haddress⟩ := Exec.addressOf_eq (hdst ▸ hmeets) c
    have hperform := hx.performed
    have hlist : Exec.asList (.regList mask) c = .ok mask c := rfl
    rw [hop, Exec.perform, Exec.bind_source hsrc, Exec.bind_of_ok hlist, Exec.bind_destination hdst,
      Exec.bind_of_ok haddress] at hperform
    have hlen : (RegList.members mask).length ≤ 16 := List.length_filter_le _ _
    obtain ⟨⟨bus, journal, hc'⟩, hsaved, hother⟩ := Exec.of_storeListed (by omega) hperform
    rw [hx.machine]
    rw [hx.cpu, hx.base] at haddr
    rw [hx.cpu] at hsaved
    rw [hx.bus] at hother
    refine ⟨ea, addr, c'.continuation, hdst, haddr, ?_, hsaved, hother⟩
    rw [← hx.cpu, hc']
  · have hmeets := hx.takes.src
    rw [hop, hsrc] at hmeets
    obtain ⟨_, ⟨⟩, -, hne⟩ := hmeets
    exact absurd rfl hne

theorem At.loads (h : m.At d) (hname : d.mnemonic = "movem") (hsrc : d.src = some ea)
    (hdst : d.dst = some (.regList mask)) {saver : Cpu} {addr : UInt32}
    (hat : ea.At m.cpu .long (m.cpu.pc + 2) (.mem addr))
    (hsaved : saver.SavedAt m.bus (RegList.members mask) addr) :
    ∃ pc, Run.step .full m = .ok .running
      ⟨{ m.cpu.loadedWith saver.listed (RegList.members mask) with pc := pc }, m.bus⟩ := by
  obtain ⟨x, c, hx⟩ := h.performs
  obtain ⟨hquiet, ⟨hop, hdemand⟩ | ⟨hop, -⟩⟩ :=
    Catalogue.lists_named x hx.listed (hname ▸ hx.named)
  · have hmeets := hx.dst
    rw [hdemand, hdst] at hmeets
    obtain ⟨_, ⟨⟩, -, hne⟩ := hmeets
    exact absurd rfl hne
  · have hmeets := hx.takes.src
    rw [hop, hsrc] at hmeets
    obtain ⟨addr', haddr', haddress⟩ := Exec.addressOf_eq hmeets c
    rw [hx.cpu, hx.base] at haddr'
    cases hat.unique haddr'
    have hlist : Exec.asList (.regList mask) c = .ok mask c := rfl
    have hperform : Exec.perform x.operation d c = .ok ()
        { c with cpu := c.cpu.loadedWith saver.listed (RegList.members mask) } := by
      rw [hop, Exec.perform, Exec.bind_destination hdst, Exec.bind_of_ok hlist,
        Exec.bind_source hsrc, Exec.bind_of_ok haddress]
      exact Exec.loadListed_eq (hx.bus ▸ hsaved)
    have hstate : (c.cpu.loadedWith saver.listed (RegList.members mask)).state = .running := by
      obtain ⟨d, a, heq⟩ := Cpu.loadedWith_eq c.cpu saver.listed (RegList.members mask)
      rw [heq, hx.cpu]
      exact h.running
    have hstep := hx.step_eq (Definition.of_isQuiet hquiet).1 hperform hstate
    rw [hx.cpu, hx.bus] at hstep
    exact ⟨_, hstep⟩

end Machine

namespace Run

/-- A list of registers that was saved to memory stands there in order from the address of the
operand on, and nothing else was written. Whatever the registers hold afterwards, as long as the
operand still has its address, they are loaded back from there, and nothing else changes. -/
theorem step_movem {m m' : Machine LinearMemory} {d : Decoded} {mask : UInt16} {state : RunState}
    (hat : m.At d) (hname : d.mnemonic = "movem") (hsrc : d.src = some (.regList mask))
    (hstep : step .full m = .ok state m') :
    ∃ ea addr, d.dst = some ea ∧ ea.At m.cpu .long (m.cpu.pc + 2) (.mem addr) ∧
      (∃ pc, m'.cpu = { m.cpu with pc := pc }) ∧
      m.cpu.SavedAt m'.bus (RegList.members mask) addr ∧
      (∀ a, (∀ k < 4 * (RegList.members mask).length, a ≠ addr + UInt32.ofNat k) →
        ByteBus.byte? m'.bus a = ByteBus.byte? m.bus a) ∧
      ∀ (n : Machine LinearMemory) d', n.At d' → d'.mnemonic = "movem" → d'.src = some ea →
        d'.dst = some (.regList mask) → n.bus = m'.bus →
        ea.At n.cpu .long (n.cpu.pc + 2) (.mem addr) →
        ∃ n', step .full n = .ok .running n' ∧ n'.bus = n.bus ∧
          (∃ pc d a, n'.cpu = { n.cpu with pc := pc, d := d, a := a }) ∧
          ∀ i < 16, n'.cpu.listed i =
            if i ∈ RegList.members mask then m.cpu.listed i else n.cpu.listed i := by
  obtain ⟨ea, addr, pc, hdst, haddr, hcpu, hsaved, hother⟩ := hat.saves hname hsrc hstep
  refine ⟨ea, addr, hdst, haddr, ⟨pc, hcpu⟩, hsaved, hother, ?_⟩
  intro n d' hat' hname' hsrc' hdst' hbus haddr'
  obtain ⟨pc', hstep'⟩ := hat'.loads hname' hsrc' hdst' haddr' (hbus ▸ hsaved)
  refine ⟨_, hstep', rfl, ?_, fun i hi => ?_⟩
  · obtain ⟨d, a, heq⟩ := Cpu.loadedWith_eq n.cpu m.cpu.listed (RegList.members mask)
    exact ⟨pc', d, a, by rw [heq]⟩
  · exact Cpu.listed_loadedWith (fun j hj => RegList.lt_of_mem_members hj) hi

/-- A program that saves D1, A0 and A1 from `(4,A1)` on, and loads them from there. -/
def savingProgram : LinearMemory :=
  (LinearMemory.zeroed 0x40 0).setBytes 0x20
    [0x48, 0xE9, 0x03, 0x02, 0x00, 0x04, 0x4C, 0xE9, 0x03, 0x02, 0x00, 0x04]

def savingCpu : Cpu :=
  { ((Cpu.new {}).setDataReg 1 0x12345678).setAddrReg 1 0x2C with pc := 0x20 }

set_option maxRecDepth 2000 in
/-- The base of a list is in the list. The other registers change before they are loaded. -/
theorem step_movem_base :
    ∃ m', step .full ⟨savingCpu, savingProgram⟩ = .ok .running m' ∧
      Bus.read m'.bus .long 0x30 = .ok 0x12345678 ∧
      ∃ n', step .full ⟨{ (savingCpu.setDataReg 1 5).setAddrReg 0 7 with pc := 0x26 }, m'.bus⟩ =
          .ok .running n' ∧ n'.bus = m'.bus ∧ n'.cpu.dataReg 1 = 0x12345678 ∧
        n'.cpu.addrReg 0 = 0 ∧ n'.cpu.addrReg 1 = 0x2C := by
  have hlookup : Registry.full.lookup 0x48E9 .c = some (Catalogue.all[65], 65) :=
    Registry.lookup_of_claims (by decide) (by decide)
  have hlookup' : Registry.full.lookup 0x4CE9 .c = some (Catalogue.all[66], 66) :=
    Registry.lookup_of_claims (by decide) (by decide)
  have hdecode : (Catalogue.all[65]).decode (.inMemory savingProgram 0x48E9 0x20) .start = .ok
    ⟨⟨some .long, some (.regList 0x0302), some (.disp 1 4)⟩, "movem", 0x48E9, 0x20, 2⟩ ⟨2, 0⟩ := rfl
  have hfetch : fetch savingProgram .word 0x20 = .ok 0x48E9 := by decide
  have hperform : Exec.perform .storeList
      ⟨⟨some .long, some (.regList 0x0302), some (.disp 1 4)⟩, "movem", 0x48E9, 0x20, 2⟩
      (.ready savingCpu savingProgram 0x20 0x48E9 ⟨2, 0⟩) =
    .ok () { Context.ready savingCpu (savingProgram.setBytes 0x30
        [0x12, 0x34, 0x56, 0x78, 0, 0, 0, 0, 0, 0, 0, 0x2C]) 0x20 0x48E9 ⟨2, 0⟩ with
      journal := [⟨0x38, .long, 0⟩, ⟨0x34, .long, 0⟩, ⟨0x30, .long, 0⟩] } := rfl
  obtain ⟨hat, hstep⟩ := Machine.runs_of_lookup (m := ⟨savingCpu, savingProgram⟩) rfl hfetch hlookup
    hdecode rfl hperform rfl
  obtain ⟨ea, addr, hdst, ⟨_, haddr⟩, -, hsaved, -, hloads⟩ := step_movem hat rfl rfl hstep
  cases hdst
  cases haddr
  have hdecode' : (Catalogue.all[66]).decode (.inMemory (savingProgram.setBytes 0x30
      [0x12, 0x34, 0x56, 0x78, 0, 0, 0, 0, 0, 0, 0, 0x2C]) 0x4CE9 0x26) .start = .ok
    ⟨⟨some .long, some (.disp 1 4), some (.regList 0x0302)⟩, "movem", 0x4CE9, 0x26, 2⟩ ⟨2, 0⟩ := rfl
  have hfetch' : fetch (savingProgram.setBytes 0x30
      [0x12, 0x34, 0x56, 0x78, 0, 0, 0, 0, 0, 0, 0, 0x2C]) .word 0x26 = .ok 0x4CE9 := by decide
  have hat' := Machine.at_of_lookup (m := ⟨{ (savingCpu.setDataReg 1 5).setAddrReg 0 7 with
    pc := 0x26 }, _⟩) rfl hfetch' hlookup' hdecode'
  obtain ⟨n', hstep', hbus, -, hlisted⟩ := hloads _ _ hat' rfl rfl rfl rfl ⟨_, rfl⟩
  refine ⟨_, hstep, hsaved 0 1 rfl, n', hstep', hbus, ?_, ?_, ?_⟩
  · exact hlisted 1 (by decide)
  · exact hlisted 8 (by decide)
  · exact hlisted 9 (by decide)

end Run

end ColdFire
