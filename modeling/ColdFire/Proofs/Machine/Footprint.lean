import ColdFire.Proofs.Execution.Ending

namespace ColdFire

namespace Decoded

/-- The instruction names a data register to be loaded: as its destination, in a list of registers
or for a remainder. -/
def LoadsData (d : Decoded) (i : Fin 8) : Prop :=
  (∃ r, regIndex r = i ∧ (d.dst = some (.dataReg r) ∨ ∃ q, d.dst = some (.regPair r q))) ∨
    ∃ mask, d.dst = some (.regList mask) ∧ i.val ∈ RegList.members mask

/-- The instruction names an address register to be loaded: as its destination, in a list of
registers, as a pointer that steps or as a frame pointer. -/
def LoadsAddr (d : Decoded) (i : Fin 8) : Prop :=
  (∃ r, regIndex r = i ∧ (d.dst = some (.addrReg r) ∨
      (∃ ea, (d.src = some ea ∨ d.dst = some ea) ∧ (ea = .postInc r ∨ ea = .preDec r)) ∨
      d.mnemonic = "link" ∧ d.src = some (.addrReg r))) ∨
    ∃ mask, d.dst = some (.regList mask) ∧ i.val + 8 ∈ RegList.members mask

def pushing : List String := ["pea", "link", "bsr", "jsr"]

/-- On the processor `cpu` a byte of memory belongs to the destination of the instruction, or to the
long that it pushes. -/
def Covers (d : Decoded) (cpu : Cpu) (pcBase a : UInt32) : Prop :=
  ∃ addr size, (d.StoresAt cpu pcBase addr size ∨
      d.mnemonic ∈ pushing ∧ addr = cpu.sp - 4 ∧ size = .long) ∧
    ∃ k < size.bytes, a = addr + UInt32.ofNat k

section Permit

variable {d : Decoded} {op : Operation} {cpu : Cpu} {pcBase addr : UInt32} {size : Size}
  {r : UInt8}

theorem loadsData_of_permit (h : (d.permit op cpu pcBase).data r) : d.LoadsData (regIndex r) := by
  rcases h with hdst | ⟨mask, hdst, hlt, hr⟩ | ⟨q, hdst⟩
  · exact .inl ⟨r, rfl, .inl hdst⟩
  · refine .inr ⟨mask, hdst, ?_⟩
    rwa [val_regIndex hlt]
  · exact .inl ⟨r, rfl, .inr ⟨q, hdst⟩⟩

theorem loadsAddr_of_permit (hlink : op = .link → d.mnemonic = "link")
    (h : (d.permit op cpu pcBase).addr r) (hr : regIndex r ≠ regIndex 7) :
    d.LoadsAddr (regIndex r) := by
  rcases h with rfl | hdst | ⟨mask, hdst, hlisted⟩ | hsteps | ⟨hop, hsrc⟩
  · exact absurd rfl hr
  · exact .inl ⟨r, rfl, .inl hdst⟩
  · refine .inr ⟨mask, hdst, ?_⟩
    have hlt := RegList.lt_of_mem_members hlisted
    rwa [val_regIndex (by omega)]
  · exact .inl ⟨r, rfl, .inr (.inl hsteps)⟩
  · exact .inl ⟨r, rfl, .inr (.inr ⟨hlink hop, hsrc⟩)⟩

theorem covers_of_permit (hpushes : op.pushes = true → d.mnemonic ∈ pushing)
    (h : (d.permit op cpu pcBase).memory addr size) {k : Nat} (hk : k < size.bytes) :
    d.Covers cpu pcBase (addr + UInt32.ofNat k) := by
  refine ⟨addr, size, ?_, k, hk, rfl⟩
  rcases h with hstores | ⟨hop, hpushed⟩
  · exact .inl hstores
  · exact .inr ⟨hpushes hop, hpushed⟩

end Permit

end Decoded

namespace Catalogue

theorem named_link : ∀ d ∈ all, d.operation = .link →
    d.format.ownNames = [] ∧ d.mnemonic = "link" :=
  List.all_iff_forall_prop.mp rfl

theorem named_pushing : ∀ d ∈ all, d.operation.pushes = true →
    d.format.ownNames = [] ∧ d.mnemonic ∈ Decoded.pushing :=
  List.all_iff_forall_prop.mp rfl

end Catalogue

namespace Context.Changes

variable {β : Type} [Bus β] {x : Entry} {s : WordSource} {decoded : Decoded} {cursor : Cursor}
  {cpu : Cpu} {pcBase : UInt32} {c c' : Context β}

theorem named [LawfulBus β] [ByteBus β] (hx : x.1 ∈ Catalogue.all)
    (hdecode : x.1.decode s .start = .ok decoded cursor)
    (h : c.Changes (decoded.permit x.1.operation cpu pcBase) c') :
    (∀ i : Fin 8, c'.cpu.d.get i ≠ c.cpu.d.get i → decoded.LoadsData i) ∧
      (∀ i : Fin 8, i ≠ regIndex 7 → c'.cpu.a.get i ≠ c.cpu.a.get i → decoded.LoadsAddr i) ∧
      ∀ a, ByteBus.byte? c'.bus a ≠ ByteBus.byte? c.bus a → decoded.Covers cpu pcBase a := by
  have hlink : x.1.operation = .link → decoded.mnemonic = "link" := by
    intro hop
    obtain ⟨hown, hname⟩ := Catalogue.named_link x.1 hx hop
    exact (Definition.mnemonic_of_decode hdecode hown).trans hname
  have hpushes : x.1.operation.pushes = true → decoded.mnemonic ∈ Decoded.pushing := by
    intro hop
    obtain ⟨hown, hname⟩ := Catalogue.named_pushing x.1 hx hop
    rwa [Definition.mnemonic_of_decode hdecode hown]
  refine ⟨fun i hne => ?_, fun i hi hne => ?_, fun a hne => ?_⟩
  · by_contra hloads
    refine hne (h.data ?_)
    rintro r hr rfl
    exact hloads (Decoded.loadsData_of_permit hr)
  · by_contra hloads
    refine hne (h.addr ?_)
    rintro r hr rfl
    exact hloads (Decoded.loadsAddr_of_permit hlink hr hi)
  · by_contra hcovers
    refine hne (h.byte? ?_)
    rintro addr size hstores k hk rfl
    exact hcovers (Decoded.covers_of_permit hpushes hstores hk)

end Context.Changes

namespace Run

variable {β : Type} [Bus β] {m m' : Machine β} {state : RunState}

/-- An instruction that completes changes only what its disassembly names: data registers that it
loads, address registers that it loads or steps, and memory where its destination is or where it
pushes. -/
theorem step_footprint [LawfulBus β] [ByteBus β] (running : m.cpu.state = .running)
    (plain : ∀ e faultPc bus, ending .full m ≠ .raised e faultPc bus)
    (h : step .full m = .ok state m') :
    ∃ source decoded cursor, WordSource.ofBus m.bus m.cpu.pc = .ok source ∧
      Registry.full.decode m.cpu.config.tier source .start = .ok (some decoded) cursor ∧
      (∀ i : Fin 8, m'.cpu.d.get i ≠ m.cpu.d.get i → decoded.LoadsData i) ∧
      (∀ i : Fin 8, i ≠ regIndex 7 → m'.cpu.a.get i ≠ m.cpu.a.get i → decoded.LoadsAddr i) ∧
      ∀ a, ByteBus.byte? m'.bus a ≠ ByteBus.byte? m.bus a →
        decoded.Covers m.cpu (source.extensionAddress cursor.pcMark) a := by
  obtain ⟨c, hending, rfl⟩ := completed_of_step running plain h
  obtain ⟨word, x, decoded, cursor, hfetch, hlookup, -, hdecode, hcompleted⟩ := of_completed hending
  have hchanges := changes_of_completed hlookup hdecode hcompleted
  refine ⟨.inMemory m.bus word.toUInt16 m.cpu.pc, decoded, cursor, ?_, ?_,
    hchanges.named (Registry.of_lookup_full hlookup).1 hdecode⟩
  · rw [WordSource.ofBus, hfetch]
    rfl
  · rw [Registry.decode_of_lookup (s := .inMemory m.bus word.toUInt16 m.cpu.pc) hlookup, hdecode]

set_option maxRecDepth 1000 in
theorem step_footprint_move :
    let m : Machine LinearMemory :=
      ⟨{ ((Cpu.new {}).setAddrReg 0 0x30).setAddrReg 1 0x40 with pc := 0x20 },
        ((LinearMemory.zeroed 0x40 0).setBytes 0x20 [0x33, 0x18]).setBytes 0x30 [0x12, 0x34]⟩
    ∃ m', step .full m = .ok .running m' ∧ m'.cpu.addrReg 1 = 0x3E ∧
      ∃ source decoded cursor, WordSource.ofBus m.bus 0x20 = .ok source ∧
        Registry.full.decode .c source .start = .ok (some decoded) cursor ∧
        (∀ i : Fin 8, m'.cpu.d.get i ≠ m.cpu.d.get i → decoded.LoadsData i) ∧
        (∀ i : Fin 8, i ≠ regIndex 7 → m'.cpu.a.get i ≠ m.cpu.a.get i → decoded.LoadsAddr i) ∧
        ∀ a, ByteBus.byte? m'.bus a ≠ ByteBus.byte? m.bus a →
          decoded.Covers m.cpu (source.extensionAddress cursor.pcMark) a := by
  intro m
  have hlookup : Registry.full.lookup 0x3318 .c = some (Catalogue.all[55], 55) :=
    Registry.lookup_of_claims (by decide) (by decide)
  have hfetch : fetch m.bus .word m.cpu.pc = .ok 0x3318 := by decide
  obtain ⟨c, hcompletes, hc⟩ := Ending.eq_completed
    (p := fun c => c.cpu.state = .running ∧ c.cpu.addrReg 1 = 0x3E)
    (show (endingOf (Catalogue.all[55]) 0x3318 m).completed?.any _ = true by decide)
  obtain ⟨hstate, hpointer⟩ := of_decide_eq_true hc
  have hending := (ending_of_lookup hfetch hlookup rfl).trans hcompletes
  have hstep : step .full m = .ok .running ⟨{ c.cpu with pc := c.continuation }, c.bus⟩ := by
    rw [step_of_running rfl, hending, ← hstate]
    rfl
  have hplain : ∀ e faultPc bus, ending .full m ≠ .raised e faultPc bus := by
    intro e faultPc bus h
    cases hending.symm.trans h
  exact ⟨_, hstep, hpointer, step_footprint rfl hplain hstep⟩

end Run

end ColdFire
