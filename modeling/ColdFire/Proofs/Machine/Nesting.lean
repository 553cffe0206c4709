import ColdFire.Proofs.Machine.Instruction
import ColdFire.Proofs.Memory.Linear
import ColdFire.Proofs.Word.Division

namespace ColdFire

namespace Catalogue

def brackets : List (String × Operation) :=
  [("link", .link), ("unlk", .unlink), ("bsr", .branch 1), ("jsr", .call), ("rts", .returnFromCall)]

theorem brackets_named : ∀ b ∈ brackets, ∀ x ∈ all, b.1 ∈ x.mnemonic :: x.format.ownNames →
    x.isQuiet = true ∧ x.operation = b.2 := by
  decide +kernel

end Catalogue

/-- An instruction that opens a frame or a call, and one that closes it. A frame is not kept in the
stack pointer, and reaches down from where it is. -/
inductive Decoded.Brackets (frames : UInt8 → Prop) (d d' : Decoded) : Prop
  | frame {r : UInt8} {v : UInt32} (opens : d.mnemonic = "link") (src : d.src = some (.addrReg r))
      (dst : d.dst = some (.immediate v)) (listed : frames r) (other : regIndex r ≠ regIndex 7)
      (down : Size.word.signed v ≤ 0) (closes : d'.mnemonic = "unlk")
      (same : d'.dst = some (.addrReg r))
  | call (opens : d.mnemonic = "bsr" ∨ d.mnemonic = "jsr") (closes : d'.mnemonic = "rts")

/-- A frame or a call that was closed: the machine before it was opened, and the machine after. -/
structure Bracket where
  before : Machine LinearMemory
  opening : Decoded
  closing : Decoded
  after : Machine LinearMemory

/-- After a frame or a call was closed, the stack pointer and the registers of the frames are what
they were, and a return has gone on behind the call. -/
structure Bracket.Restored (frames : UInt8 → Prop) (b : Bracket) : Prop where
  sp : b.after.cpu.sp = b.before.cpu.sp
  frame : ∀ r, frames r → b.after.cpu.addrReg r = b.before.cpu.addrReg r
  returns : b.closing.mnemonic = "rts" →
    b.after.cpu.pc = b.before.cpu.pc + UInt32.ofNat b.opening.length

/-- A run of frames and calls that are opened and closed in turn, with those that were closed, in
order. Between them the program may do whatever writes no memory and leaves the stack pointer and the
registers of the frames. -/
inductive Nested (frames : UInt8 → Prop) :
    Machine LinearMemory → List Bracket → Machine LinearMemory → Prop
  | idle {m m' : Machine LinearMemory} (bus : m'.bus = m.bus) (sp : m'.cpu.sp = m.cpu.sp)
      (frame : ∀ r, frames r → m'.cpu.addrReg r = m.cpu.addrReg r) : Nested frames m [] m'
  | append {m m₁ m' : Machine LinearMemory} {ps qs : List Bracket} (first : Nested frames m ps m₁)
      (rest : Nested frames m₁ qs m') : Nested frames m (ps ++ qs) m'
  | bracket {m m₁ m₂ m' : Machine LinearMemory} {d d' : Decoded} {state state' : RunState}
      {ps : List Bracket} (brackets : d.Brackets frames d') (opens : m.At d)
      (opened : Run.step .full m = .ok state m₁) (room : m₁.cpu.sp < m.cpu.sp)
      (inside : Nested frames m₁ ps m₂) (closes : m₂.At d')
      (closed : Run.step .full m₂ = .ok state' m') :
      Nested frames m (ps ++ [⟨m, d, d', m'⟩]) m'

namespace Machine

section Step

variable {m m' : Machine LinearMemory} {d : Decoded} {op : Operation} {r : UInt8} {v : UInt32}
  {state : RunState}

theorem At.completes_bracket (h : m.At d) (hop : (d.mnemonic, op) ∈ Catalogue.brackets)
    (hstep : Run.step .full m = .ok state m') :
    ∃ x c c', m.Completes d m' x c c' ∧ x.operation = op := by
  obtain ⟨x, c, c', hx⟩ := h.completes hstep fun x hx hnamed =>
    (Catalogue.brackets_named _ hop x hx hnamed).1
  exact ⟨x, c, c', hx, (Catalogue.brackets_named _ hop x hx.listed hx.named).2⟩

theorem At.links (h : m.At d) (hname : d.mnemonic = "link") (hsrc : d.src = some (.addrReg r))
    (hdst : d.dst = some (.immediate v)) (hstep : Run.step .full m = .ok state m') :
    Bus.write .long (m.cpu.sp - 4) (m.cpu.addrReg r) m.bus = .ok () m'.bus ∧
      m'.cpu.a = (((m.cpu.setSp (m.cpu.sp - 4)).setAddrReg r (m.cpu.sp - 4)).setSp
        (m.cpu.sp - 4 + Size.word.signExtend v)).a := by
  have hlisted : (d.mnemonic, .link) ∈ Catalogue.brackets := by rw [hname]; decide
  obtain ⟨x, c, c', hx, hop⟩ := h.completes_bracket hlisted hstep
  have hperform := hx.performed
  rw [hop, Exec.perform, Exec.link, Exec.bind_source hsrc, Exec.bind_destination hdst] at hperform
  dsimp only at hperform
  rw [Exec.bind_cpu, Exec.bind_eq_ok] at hperform
  obtain ⟨_, c₁, hpush, hperform⟩ := hperform
  obtain ⟨bus, journal, hbus, rfl⟩ := Exec.of_push hpush
  cases hperform
  rw [hx.cpu, hx.bus] at hbus
  rw [hx.machine]
  dsimp only
  rw [hx.cpu, Cpu.sp_setSp]
  exact ⟨hbus, rfl⟩

theorem At.unlinks (h : m.At d) (hname : d.mnemonic = "unlk") (hdst : d.dst = some (.addrReg r))
    (hstep : Run.step .full m = .ok state m') :
    ∃ v, Bus.read m.bus .long (m.cpu.addrReg r) = .ok v ∧ m'.bus = m.bus ∧
      m'.cpu.a = ((m.cpu.setSp (m.cpu.addrReg r + 4)).setAddrReg r v).a := by
  have hlisted : (d.mnemonic, .unlink) ∈ Catalogue.brackets := by rw [hname]; decide
  obtain ⟨x, c, c', hx, hop⟩ := h.completes_bracket hlisted hstep
  have hperform := hx.performed
  have hreg : Exec.asAddrReg (.addrReg r) c = .ok r c := rfl
  rw [hop, Exec.perform, Exec.unlink, Exec.bind_destination hdst, Exec.bind_of_ok hreg,
    Exec.bind_eq_ok] at hperform
  obtain ⟨_, c₁, hmodify, hperform⟩ := hperform
  cases hmodify
  rw [Exec.bind_eq_ok] at hperform
  obtain ⟨v, c₂, hpull, hperform⟩ := hperform
  obtain ⟨hread, rfl⟩ := Exec.of_pull hpull
  cases hperform
  rw [hx.machine]
  dsimp only at hread ⊢
  rw [Cpu.sp_setSp, hx.cpu, hx.bus] at hread
  rw [hx.cpu, hx.bus, Cpu.sp_setSp]
  refine ⟨v, hread, rfl, ?_⟩
  unfold Cpu.setSp
  rw [Cpu.setAddrReg_setAddrReg]

theorem At.calls (h : m.At d) (hname : d.mnemonic = "bsr" ∨ d.mnemonic = "jsr")
    (hstep : Run.step .full m = .ok state m') :
    Bus.write .long (m.cpu.sp - 4) d.nextAddress m.bus = .ok () m'.bus ∧
      m'.cpu.a = (m.cpu.setSp (m.cpu.sp - 4)).a := by
  -- a branch knows its target, a jump asks its operand; then both do the same
  have hpushes : ∃ x c c' target, m.Completes d m' x c c' ∧
      (Exec.push c.nextPc >>= fun _ => Exec.jumpTo target) c = .ok () c' := by
    rcases hname with hname | hname
    · have hlisted : (d.mnemonic, .branch 1) ∈ Catalogue.brackets := by rw [hname]; decide
      obtain ⟨x, c, c', hx, hop⟩ := h.completes_bracket hlisted hstep
      have htakes := hx.takes
      have hperform := hx.performed
      rw [hop] at htakes hperform
      obtain ⟨off, hsrc, -⟩ := htakes.suits
      rw [Exec.perform, Exec.branch, Exec.bind_source hsrc] at hperform
      exact ⟨x, c, c', _, hx, hperform⟩
    · have hlisted : (d.mnemonic, .call) ∈ Catalogue.brackets := by rw [hname]; decide
      obtain ⟨x, c, c', hx, hop⟩ := h.completes_bracket hlisted hstep
      have hmeets := hx.takes.src
      have hperform := hx.performed
      rw [hop] at hmeets hperform
      obtain ⟨ea, hsrc, -⟩ := id hmeets
      obtain ⟨target, -, haddress⟩ := Exec.addressOf_eq (hsrc ▸ hmeets) c
      rw [Exec.perform, Exec.bind_source hsrc, Exec.bind_of_ok haddress] at hperform
      exact ⟨x, c, c', target, hx, hperform⟩
  obtain ⟨x, c, c', target, hx, hpushes⟩ := hpushes
  rw [Exec.bind_eq_ok] at hpushes
  obtain ⟨_, c₁, hpush, hjump⟩ := hpushes
  obtain ⟨bus, journal, hbus, rfl⟩ := Exec.of_push hpush
  cases hjump
  rw [hx.cpu, hx.bus, hx.next] at hbus
  rw [hx.machine]
  dsimp only
  rw [hx.cpu]
  exact ⟨hbus, rfl⟩

theorem At.returns (h : m.At d) (hname : d.mnemonic = "rts")
    (hstep : Run.step .full m = .ok state m') :
    ∃ v, Bus.read m.bus .long m.cpu.sp = .ok v ∧ m'.bus = m.bus ∧
      m'.cpu.a = (m.cpu.setSp (m.cpu.sp + 4)).a ∧ m'.cpu.pc = v := by
  have hlisted : (d.mnemonic, .returnFromCall) ∈ Catalogue.brackets := by rw [hname]; decide
  obtain ⟨x, c, c', hx, hop⟩ := h.completes_bracket hlisted hstep
  have hperform := hx.performed
  rw [hop, Exec.perform, Exec.bind_eq_ok] at hperform
  obtain ⟨v, c₁, hpull, hjump⟩ := hperform
  obtain ⟨hread, rfl⟩ := Exec.of_pull hpull
  cases hjump
  rw [hx.cpu, hx.bus] at hread
  rw [hx.machine]
  dsimp only
  rw [hx.cpu, hx.bus]
  exact ⟨v, hread, rfl, rfl, rfl⟩

end Step

/-- The stack and the frames of a machine are kept: the stack pointer, the registers of the frames,
and every long from the stack pointer on. -/
structure Keeps (frames : UInt8 → Prop) (m m' : Machine LinearMemory) : Prop where
  sp : m'.cpu.sp = m.cpu.sp
  frame : ∀ r, frames r → m'.cpu.addrReg r = m.cpu.addrReg r
  saved : ∀ a w, m.cpu.sp ≤ a → a.toNat + 4 ≤ 2 ^ 32 →
    (Bus.read m'.bus .long a = .ok w ↔ Bus.read m.bus .long a = .ok w)

structure Pushes (m : Machine LinearMemory) (v : UInt32) (m' : Machine LinearMemory) : Prop where
  written : Bus.write .long (m.cpu.sp - 4) v m.bus = .ok () m'.bus
  below : m'.cpu.sp.toNat + 4 ≤ m.cpu.sp.toNat

variable {frames : UInt8 → Prop} {m m₁ m₂ m' : Machine LinearMemory} {v : UInt32}

theorem Keeps.trans (h : m.Keeps frames m₁) (h' : m₁.Keeps frames m') : m.Keeps frames m' where
  sp := h'.sp.trans h.sp
  frame r hr := (h'.frame r hr).trans (h.frame r hr)
  saved a w ha hend := (h'.saved a w (h.sp ▸ ha) hend).trans (h.saved a w ha hend)

theorem Pushes.toNat_slot (h : m.Pushes v m₁) : (m.cpu.sp - 4).toNat = m.cpu.sp.toNat - 4 := by
  have hfour : (4 : UInt32).toNat = 4 := rfl
  have hbelow := h.below
  exact UInt32.toNat_sub_of_le _ _ (UInt32.le_iff_toNat_le.2 (by omega))

theorem Pushes.read_slot (h : m.Pushes v m₁) (hkeeps : m₁.Keeps frames m₂) :
    Bus.read m₂.bus .long (m.cpu.sp - 4) = .ok v := by
  have hslot := h.toNat_slot
  have hbelow := h.below
  have hsp := m.cpu.sp.toNat_lt
  rw [hkeeps.saved _ _ (UInt32.le_iff_toNat_le.2 (by omega)) (by omega), ← Bus.value_bytes_long v]
  exact LinearMemory.read_write h.written

theorem Pushes.read_above (h : m.Pushes v m₁) (hkeeps : m₁.Keeps frames m₂) {a : UInt32}
    (w : UInt32) (ha : m.cpu.sp ≤ a) (hend : a.toNat + 4 ≤ 2 ^ 32) :
    Bus.read m₂.bus .long a = .ok w ↔ Bus.read m.bus .long a = .ok w := by
  have hslot := h.toNat_slot
  have hbelow := h.below
  have ha := UInt32.le_iff_toNat_le.1 ha
  rw [hkeeps.saved a w (UInt32.le_iff_toNat_le.2 (by omega)) hend]
  -- the long that was pushed ends where those above begin
  apply LinearMemory.read_write_of_apart h.written
  · rw [UInt32.toNat_sub]
    omega
  · rw [UInt32.toNat_sub]
    omega

/-- The stack is kept once the stack pointer is back where it was before the long was pushed. -/
theorem Pushes.keeps (h : m.Pushes v m₁) (hkeeps : m₁.Keeps frames m₂) (hbus : m'.bus = m₂.bus)
    (hsp : m'.cpu.sp = m.cpu.sp)
    (hframe : ∀ r, frames r → regIndex r ≠ regIndex 7 → m'.cpu.addrReg r = m.cpu.addrReg r) :
    m.Keeps frames m' where
  sp := hsp
  frame r hr := by
    by_cases hseven : regIndex r = regIndex 7
    · rw [Cpu.addrReg_congr _ _ hseven, Cpu.addrReg_congr _ _ hseven]
      exact hsp
    · exact hframe r hr hseven
  saved a w ha hend := by
    rw [hbus]
    exact h.read_above hkeeps w ha hend

end Machine

section Bracket

variable {frames : UInt8 → Prop} {m m₁ m₂ m' : Machine LinearMemory} {d d' : Decoded}
  {state state' : RunState} {sp v : UInt32}

theorem toNat_pushed_le (hroom : sp - 4 < sp) : (sp - 4).toNat + 4 ≤ sp.toNat := by
  have hsp := sp.toNat_lt
  have hroom := UInt32.lt_iff_toNat_lt.1 hroom
  have hfour : (4 : UInt32).toNat = 4 := rfl
  rw [UInt32.toNat_sub, hfour] at hroom ⊢
  omega

/-- A displacement that is not positive leads down, if it does not lead below zero. -/
theorem toNat_displaced_le (hdown : Size.word.signed v ≤ 0)
    (hroom : sp - 4 + Size.word.signExtend v < sp) :
    (sp - 4 + Size.word.signExtend v).toNat + 4 ≤ sp.toNat := by
  have hsame := Size.signed_signExtend .word v
  have hlong := Size.signed_cases .long (Size.word.signExtend v)
  have hword := Size.signed_cases .word v
  have hlt := Size.unsigned_lt .word v
  have hextended := (Size.word.signExtend v).toNat_lt
  have hsp := sp.toNat_lt
  have hroom := UInt32.lt_iff_toNat_lt.1 hroom
  have hfour : (4 : UInt32).toNat = 4 := rfl
  rw [show Size.long.bits = 32 from rfl, Size.unsigned_long] at hlong
  rw [show Size.word.bits = 16 from rfl] at hword hlt
  rw [UInt32.toNat_add, UInt32.toNat_sub, hfour] at hroom ⊢
  omega

/-- Closing a frame or a call that kept what is above it restores the stack and the frames. -/
theorem Decoded.Brackets.keeps (h : d.Brackets frames d') (hopens : m.At d)
    (hopened : Run.step .full m = .ok state m₁) (hroom : m₁.cpu.sp < m.cpu.sp)
    (hinside : m₁.Keeps frames m₂) (hcloses : m₂.At d')
    (hclosed : Run.step .full m₂ = .ok state' m') :
    m.Keeps frames m' ∧
      (d'.mnemonic = "rts" → m'.cpu.pc = m.cpu.pc + UInt32.ofNat d.length) := by
  cases h with
  | @frame r v opens src dst listed other down closes same =>
    obtain ⟨hwritten, ha⟩ := hopens.links opens src dst hopened
    obtain ⟨w, hread, hbus, ha'⟩ := hcloses.unlinks closes same hclosed
    have hsp : m₁.cpu.sp = m.cpu.sp - 4 + Size.word.signExtend v :=
      (Cpu.addrReg_of_a _ _ ha).trans (Cpu.sp_setSp _ _)
    have hpushes : m.Pushes (m.cpu.addrReg r) m₁ :=
      ⟨hwritten, hsp ▸ toNat_displaced_le down (hsp ▸ hroom)⟩
    -- The register of the frame is back where it was saved, whatever used it inside.
    have hpointer : m₂.cpu.addrReg r = m.cpu.sp - 4 := by
      rw [hinside.frame r listed, Cpu.addrReg_of_a _ _ ha, Cpu.addrReg_setSp_of_ne _ _ other,
        Cpu.addrReg_setAddrReg]
    rw [hpointer] at hread ha'
    have hw : w = m.cpu.addrReg r := Except.ok.inj (hread.symm.trans (hpushes.read_slot hinside))
    constructor
    · apply hpushes.keeps hinside hbus
      · rw [Cpu.sp, Cpu.addrReg_of_a _ _ ha', Cpu.addrReg_setAddrReg_of_ne _ _ _ other]
        exact (Cpu.sp_setSp _ _).trans (UInt32.sub_add_cancel _ _)
      · intro s hs hseven
        rw [Cpu.addrReg_of_a _ _ ha']
        by_cases hrs : regIndex r = regIndex s
        · rw [← Cpu.addrReg_congr _ _ hrs, Cpu.addrReg_setAddrReg, hw, Cpu.addrReg_congr _ _ hrs]
        · rw [Cpu.addrReg_setAddrReg_of_ne _ _ _ hrs, Cpu.addrReg_setSp_of_ne _ _ hseven,
            hinside.frame s hs, Cpu.addrReg_of_a _ _ ha, Cpu.addrReg_setSp_of_ne _ _ hseven,
            Cpu.addrReg_setAddrReg_of_ne _ _ _ hrs, Cpu.addrReg_setSp_of_ne _ _ hseven]
    · intro hrts
      exact absurd (closes.symm.trans hrts) (by decide)
  | call opens closes =>
    obtain ⟨hwritten, ha⟩ := hopens.calls opens hopened
    obtain ⟨w, hread, hbus, ha', hpc⟩ := hcloses.returns closes hclosed
    have hsp : m₁.cpu.sp = m.cpu.sp - 4 := (Cpu.addrReg_of_a _ _ ha).trans (Cpu.sp_setSp _ _)
    have hpushes : m.Pushes d.nextAddress m₁ := ⟨hwritten, hsp ▸ toNat_pushed_le (hsp ▸ hroom)⟩
    rw [hinside.sp, hsp] at hread ha'
    have hw : w = d.nextAddress := Except.ok.inj (hread.symm.trans (hpushes.read_slot hinside))
    constructor
    · apply hpushes.keeps hinside hbus
      · rw [Cpu.sp, Cpu.addrReg_of_a _ _ ha']
        exact (Cpu.sp_setSp _ _).trans (UInt32.sub_add_cancel _ _)
      · intro s hs hseven
        rw [Cpu.addrReg_of_a _ _ ha', Cpu.addrReg_setSp_of_ne _ _ hseven, hinside.frame s hs,
          Cpu.addrReg_of_a _ _ ha, Cpu.addrReg_setSp_of_ne _ _ hseven]
    · intro _
      rw [hpc, hw]
      exact hopens.nextAddress_eq

/-- The bracket that is closed last keeps what those inside have kept, and so on outwards. -/
theorem Nested.keeps {bs : List Bracket} (h : Nested frames m bs m') :
    m.Keeps frames m' ∧ ∀ b ∈ bs, b.Restored frames := by
  -- the invariant is that everything from the stack pointer on is kept, also by what is inside
  induction h with
  | idle bus sp frame =>
    constructor
    · refine ⟨sp, frame, ?_⟩
      intro a w _ _
      rw [bus]
    · intro b hb
      exact absurd hb List.not_mem_nil
  | append first rest ih ih' =>
    constructor
    · exact ih.1.trans ih'.1
    · intro b hb
      rcases List.mem_append.1 hb with hb | hb
      · exact ih.2 b hb
      · exact ih'.2 b hb
  | bracket brackets opens opened room inside closes closed ih =>
    obtain ⟨hkeeps, hreturns⟩ := brackets.keeps opens opened room ih.1 closes closed
    constructor
    · exact hkeeps
    · intro b hb
      rcases List.mem_append.1 hb with hb | hb
      · exact ih.2 b hb
      · cases List.mem_singleton.1 hb
        exact ⟨hkeeps.sp, hkeeps.frame, hreturns⟩

/-- However deep frames and calls are nested, each of them leaves the stack pointer and the registers
of the frames as it found them when it is closed, and each call returns behind itself. -/
theorem Nested.restores {bs : List Bracket} (h : Nested frames m bs m') :
    ∀ b ∈ bs, b.Restored frames :=
  h.keeps.2

end Bracket

/-- A program that calls a routine with a frame of its own: BSR, NOP, and from 0x24 on LINK, UNLK
and RTS. -/
def callingProgram : LinearMemory :=
  (LinearMemory.zeroed 0x40 0).setBytes 0x20
    [0x61, 0x02, 0x4E, 0x71, 0x4E, 0x56, 0xFF, 0xFC, 0x4E, 0x5E, 0x4E, 0x75]

def callingCpu (frame sp pc : UInt32) : Cpu :=
  { ((Cpu.new {}).setAddrReg 6 frame).setSp sp with pc := pc }

def calledProgram : LinearMemory := callingProgram.setBytes 0x3C [0, 0, 0, 0x22]

def framedProgram : LinearMemory := calledProgram.setBytes 0x38 [0, 0, 0, 7]

def callBracket : Bracket where
  before := ⟨callingCpu 7 0x40 0x20, callingProgram⟩
  opening := ⟨⟨some .byte, some (.relative 2), none⟩, "bsr", 0x6102, 0x20, 0⟩
  closing := ⟨⟨none, none, none⟩, "rts", 0x4E75, 0x2A, 0⟩
  after := ⟨callingCpu 7 0x40 0x22, framedProgram⟩

def frameBracket : Bracket where
  before := ⟨callingCpu 7 0x3C 0x24, calledProgram⟩
  opening := ⟨⟨some .word, some (.addrReg 6), some (.immediate 0xFFFC)⟩, "link", 0x4E56, 0x24, 1⟩
  closing := ⟨⟨none, none, some (.addrReg 6)⟩, "unlk", 0x4E5E, 0x28, 0⟩
  after := ⟨callingCpu 7 0x3C 0x2A, framedProgram⟩

set_option maxRecDepth 2000 in
theorem Nested.restores_call :
    Nested (· = 6) callBracket.before [frameBracket, callBracket] callBracket.after ∧
      frameBracket.Restored (· = 6) ∧ callBracket.Restored (· = 6) := by
  have hbsr : Registry.full.lookup 0x6102 .c = some (Catalogue.all[74], 74) :=
    Registry.lookup_of_claims (by decide) (by decide)
  have hlink : Registry.full.lookup 0x4E56 .c = some (Catalogue.all[70], 70) :=
    Registry.lookup_of_claims (by decide) (by decide)
  have hunlk : Registry.full.lookup 0x4E5E .c = some (Catalogue.all[71], 71) :=
    Registry.lookup_of_claims (by decide) (by decide)
  have hrts : Registry.full.lookup 0x4E75 .c = some (Catalogue.all[123], 123) :=
    Registry.lookup_of_claims (by decide) (by decide)
  have hcall : callBracket.before.At callBracket.opening ∧
      Run.step .full callBracket.before = .ok .running frameBracket.before := by
    have hfetch : fetch callingProgram .word 0x20 = .ok 0x6102 := by decide
    have hdecode : (Catalogue.all[74]).decode (.inMemory callingProgram 0x6102 0x20) .start =
      .ok callBracket.opening ⟨0, 0⟩ := rfl
    have hperform : Exec.perform (.branch 1) callBracket.opening
        (.ready (callingCpu 7 0x40 0x20) callingProgram 0x20 0x6102 ⟨0, 0⟩) =
      .ok () { Context.ready (callingCpu 7 0x3C 0x20) calledProgram 0x20 0x6102 ⟨0, 0⟩ with
        jump := some 0x24, journal := [⟨0x3C, .long, 0⟩] } := rfl
    exact Machine.runs_of_lookup (m := ⟨callingCpu 7 0x40 0x20, callingProgram⟩) rfl hfetch hbsr
      hdecode rfl hperform rfl
  have hframe : frameBracket.before.At frameBracket.opening ∧
      Run.step .full frameBracket.before =
        .ok .running ⟨callingCpu 0x38 0x34 0x28, framedProgram⟩ := by
    have hfetch : fetch calledProgram .word 0x24 = .ok 0x4E56 := by decide
    have hdecode : (Catalogue.all[70]).decode (.inMemory calledProgram 0x4E56 0x24) .start =
      .ok frameBracket.opening ⟨1, 0⟩ := rfl
    have hperform : Exec.perform .link frameBracket.opening
        (.ready (callingCpu 7 0x3C 0x24) calledProgram 0x24 0x4E56 ⟨1, 0⟩) =
      .ok () { Context.ready (callingCpu 0x38 0x34 0x24) framedProgram 0x24 0x4E56 ⟨1, 0⟩ with
        journal := [⟨0x38, .long, 0⟩] } := rfl
    exact Machine.runs_of_lookup (m := ⟨callingCpu 7 0x3C 0x24, calledProgram⟩) rfl hfetch hlink
      hdecode rfl hperform rfl
  have hunframe : Machine.At ⟨callingCpu 0x38 0x34 0x28, framedProgram⟩ frameBracket.closing ∧
      Run.step .full ⟨callingCpu 0x38 0x34 0x28, framedProgram⟩ =
        .ok .running frameBracket.after := by
    have hfetch : fetch framedProgram .word 0x28 = .ok 0x4E5E := by decide
    have hdecode : (Catalogue.all[71]).decode (.inMemory framedProgram 0x4E5E 0x28) .start =
      .ok frameBracket.closing ⟨0, 0⟩ := rfl
    have hperform : Exec.perform .unlink frameBracket.closing
        (.ready (callingCpu 0x38 0x34 0x28) framedProgram 0x28 0x4E5E ⟨0, 0⟩) =
      .ok () (.ready (callingCpu 7 0x3C 0x28) framedProgram 0x28 0x4E5E ⟨0, 0⟩) := rfl
    exact Machine.runs_of_lookup (m := ⟨callingCpu 0x38 0x34 0x28, framedProgram⟩) rfl hfetch hunlk
      hdecode rfl hperform rfl
  have hreturn : frameBracket.after.At callBracket.closing ∧
      Run.step .full frameBracket.after = .ok .running callBracket.after := by
    have hfetch : fetch framedProgram .word 0x2A = .ok 0x4E75 := by decide
    have hdecode : (Catalogue.all[123]).decode (.inMemory framedProgram 0x4E75 0x2A) .start =
      .ok callBracket.closing ⟨0, 0⟩ := rfl
    have hperform : Exec.perform .returnFromCall callBracket.closing
        (.ready (callingCpu 7 0x3C 0x2A) framedProgram 0x2A 0x4E75 ⟨0, 0⟩) =
      .ok () { Context.ready (callingCpu 7 0x40 0x2A) framedProgram 0x2A 0x4E75 ⟨0, 0⟩ with
        jump := some 0x22 } := rfl
    exact Machine.runs_of_lookup (m := ⟨callingCpu 7 0x3C 0x2A, framedProgram⟩) rfl hfetch hrts
      hdecode rfl hperform rfl
  have hinner : Nested (· = 6) frameBracket.before ([] ++ [frameBracket]) frameBracket.after :=
    .bracket (.frame rfl rfl rfl rfl (by decide) (by decide) rfl rfl) hframe.1 hframe.2 (by decide)
      (.idle rfl rfl fun _ _ => rfl) hunframe.1 hunframe.2
  have houter : Nested (· = 6) callBracket.before (([] ++ [frameBracket]) ++ [callBracket])
      callBracket.after :=
    .bracket (.call (.inl rfl) rfl) hcall.1 hcall.2 (by decide) hinner hreturn.1 hreturn.2
  exact ⟨houter, houter.restores _ List.mem_cons_self,
    houter.restores _ (List.mem_cons_of_mem _ List.mem_cons_self)⟩

end ColdFire
