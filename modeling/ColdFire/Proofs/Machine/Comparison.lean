import ColdFire.Proofs.Cpu.Conditions
import ColdFire.Proofs.Machine.Instruction

namespace ColdFire

variable {β : Type} [Bus β]

namespace Catalogue

theorem compares : ∀ d ∈ all, ∀ name ∈ d.mnemonic :: d.format.ownNames,
    (name = "cmp" ∨ name = "cmpi" →
      d.privileged = false ∧ d.operation = .arith .cmp ∧ d.dstDemand = .modes .dn) ∧
    (name = "cmpa" → d.privileged = false ∧ d.operation = .addressArith .cmp) := by
  decide +kernel

end Catalogue

namespace Exec

variable {d : Decoded} {src : Ea} {c c' : Context β} {b : UInt32} {fault : Fault} {r : UInt8}
  (hsrc : d.src = some src)

include hsrc

theorem arith_error {op : ArithOp} (hdst : d.dst = some (.dataReg r))
    (h : readEa src d.sizeOrLong c = .error fault c') : arith op d c = .error fault c' := by
  rw [arith, bind_source hsrc, bind_destination hdst]
  exact bind_of_error h

theorem arith_cmp (hdst : d.dst = some (.dataReg r))
    (h : readEa src d.sizeOrLong c = .ok b c') :
    arith .cmp d c = .ok () { c' with
      cpu := c'.cpu.setArithFlags ((c'.cpu.dataReg r &&& d.sizeOrLong.mask) - b)
        (c'.cpu.dataReg r &&& d.sizeOrLong.mask) b d.sizeOrLong false .cmp } := by
  rw [arith, bind_source hsrc, bind_destination hdst]
  exact bind_of_ok h

theorem addressArith_error {op : ArithOp} (hdst : d.dst = some (.addrReg r))
    (h : readEa src d.sizeOrLong c = .error fault c') : addressArith op d c = .error fault c' := by
  rw [addressArith, bind_source hsrc, bind_destination hdst]
  exact bind_of_error h

theorem addressArith_cmp (hdst : d.dst = some (.addrReg r))
    (h : readEa src d.sizeOrLong c = .ok b c') :
    addressArith .cmp d c = .ok () { c' with
      cpu := c'.cpu.setArithFlags (c'.cpu.addrReg r - d.sizeOrLong.signExtend b)
        (c'.cpu.addrReg r) (d.sizeOrLong.signExtend b) .long false .cmp } := by
  rw [addressArith, bind_source hsrc, bind_destination hdst]
  exact bind_of_ok h

end Exec

namespace Decoded

/-- The conditions of a status word say how the destination of a comparison is ordered to a source:
at the size of the instruction, or in all of an address register to the source with its sign. -/
def Ordered (d : Decoded) (cpu : Cpu) (b : UInt32) (sr : UInt16) : Prop :=
  if d.mnemonic = "cmpa" then
    ∃ r, d.dst = some (.addrReg r) ∧
      Condition.Orders sr .long (cpu.addrReg r) (d.sizeOrLong.signExtend b)
  else
    ∃ r, d.dst = some (.dataReg r) ∧ Condition.Orders sr d.sizeOrLong (cpu.dataReg r) b

end Decoded

theorem Machine.Performs.compares {m : Machine β} {d : Decoded} {x : Definition} {c : Context β}
    (h : m.Performs d x c) (hname : d.mnemonic ∈ ["cmp", "cmpi", "cmpa"]) :
    x.privileged = false ∧ ∃ src, d.src = some src ∧ src.modes ≠ .none ∧
      (∀ fault c', Exec.readEa src d.sizeOrLong c = .error fault c' →
        Exec.perform x.operation d c = .error fault c') ∧
      ∀ b c', Exec.readEa src d.sizeOrLong c = .ok b c' → ∃ r a b' s,
        Exec.perform x.operation d c =
          .ok () { c' with cpu := c'.cpu.setArithFlags r a b' s false .cmp } ∧
        d.Ordered c'.cpu b (c'.cpu.setArithFlags r a b' s false .cmp).sr := by
  obtain ⟨hdata, haddr⟩ := Catalogue.compares x h.listed d.mnemonic h.named
  have htakes := h.takes
  have hdst := h.dst
  by_cases hcmpa : d.mnemonic = "cmpa"
  · obtain ⟨hpriv, hop⟩ := haddr hcmpa
    rw [hop] at htakes
    obtain ⟨src, hsrc, -, hmodes⟩ := htakes.src
    obtain ⟨r, hdst⟩ := Demand.meets_an htakes.dst
    refine ⟨hpriv, src, hsrc, hmodes, fun fault c' herror => ?_, fun b c' hread => ?_⟩
    · rw [hop]
      exact Exec.addressArith_error hsrc hdst herror
    · refine ⟨_, _, _, _, (congrArg (Exec.perform · d c) hop).trans
        (Exec.addressArith_cmp hsrc hdst hread), ?_⟩
      rw [Decoded.Ordered, if_pos hcmpa]
      exact ⟨r, hdst, Condition.orders_setArithFlags _ _ _ _⟩
  · have hcmp : d.mnemonic = "cmp" ∨ d.mnemonic = "cmpi" := by
      simpa [hcmpa] using hname
    obtain ⟨hpriv, hop, hdemand⟩ := hdata hcmp
    rw [hop] at htakes
    rw [hdemand] at hdst
    obtain ⟨src, hsrc, -, hmodes⟩ := htakes.src
    obtain ⟨r, hdst⟩ := Demand.meets_dn hdst
    refine ⟨hpriv, src, hsrc, hmodes, fun fault c' herror => ?_, fun b c' hread => ?_⟩
    · rw [hop]
      exact Exec.arith_error hsrc hdst herror
    · refine ⟨_, _, _, _, (congrArg (Exec.perform · d c) hop).trans
        (Exec.arith_cmp hsrc hdst hread), ?_⟩
      rw [Decoded.Ordered, if_neg hcmpa]
      exact ⟨r, hdst, (Condition.orders_setArithFlags _ _ _ _).congr (Size.unsigned_mask _ _)⟩

namespace Run

variable {m : Machine β} {d : Decoded}

/-- A comparison completes just when its source can be read. Then the conditions say how the two
numbers are ordered, and nothing is written but condition codes other than extend. -/
theorem step_compare (h : m.At d) (hname : d.mnemonic ∈ ["cmp", "cmpi", "cmpa"]) :
    (∀ b, d.SourceHolds m b → ∃ m', step .full m = .ok .running m' ∧
      d.Ordered (d.afterSource m.cpu) b m'.cpu.sr ∧ m'.bus = m.bus ∧
      m'.cpu.flag .extend = m.cpu.flag .extend ∧
      ∃ pc, Cpu.AgreesButCodes { d.afterSource m.cpu with pc := pc } m'.cpu) ∧
    ∀ state m', step .full m = .ok state m' → ∃ b, d.SourceHolds m b := by
  obtain ⟨x, c, hx⟩ := h.performs
  obtain ⟨hpriv, src, hsrc, hmodes, herror, hok⟩ := hx.compares hname
  rcases hx.source_cases hpriv hsrc hmodes herror with ⟨b, hb, hread⟩ | ⟨hnone, t, hstep⟩
  · refine ⟨fun b' hb' => ?_, fun _ _ _ => ⟨b, hb⟩⟩
    obtain rfl := hb.unique hb'
    obtain ⟨r, a, b', s, hperform, hordered⟩ := hok b _ hread
    obtain ⟨addrs, hafter⟩ := d.afterSource_eq m.cpu
    have hcodes : (d.afterSource m.cpu).AgreesButCodes
        ((d.afterSource m.cpu).setArithFlags r a b' s false .cmp) :=
      Cpu.agreesButCodes_setArithFlags r a b' s false .cmp
    have hstate : ((d.afterSource m.cpu).setArithFlags r a b' s false .cmp).state = .running := by
      obtain ⟨sr, hcpu, -⟩ := hcodes
      rw [hcpu, hafter]
      exact h.running
    refine ⟨_, hx.step_eq hpriv hperform hstate, hordered, hx.bus, ?_, _, hcodes.withPc _⟩
    refine (Cpu.flag_setArithFlags _ _ _ _ _ _ _ _).trans ?_
    rw [hafter]
    rfl
  · refine ⟨fun b hb => absurd hb (hnone b), fun state m' hstep' => ?_⟩
    cases hstep.symm.trans hstep'

set_option maxRecDepth 2000 in
/-- The largest word with a sign is compared with the smallest one, behind a pointer that steps. The
bits above the word do not count. -/
theorem step_compare_extremes :
    let m : Machine LinearMemory :=
      ⟨{ ((Cpu.new { tier := .b }).setAddrReg 0 0x30).setDataReg 1 0xFFFF7FFF with pc := 0x20 },
        ((LinearMemory.zeroed 0x40 0).setBytes 0x20 [0xB2, 0x58]).setBytes 0x30 [0x80, 0x00]⟩
    ∃ m', step .full m = .ok .running m' ∧ Condition.test "gt" m'.cpu.sr = true ∧
      Condition.test "cs" m'.cpu.sr = true ∧ m'.cpu.dataReg 1 = 0xFFFF7FFF := by
  intro m
  let d : Decoded :=
    ⟨⟨some .word, some (.postInc 0), some (.dataReg 1)⟩, "cmp", 0xB258, 0x20, 0⟩
  have hlookup : Registry.full.lookup 0xB258 .b = some (Catalogue.all[8], 8) :=
    Registry.lookup_of_claims (by decide) (by decide)
  have hdecode : (Catalogue.all[8]).decode (.inMemory (((LinearMemory.zeroed 0x40 0).setBytes 0x20
      [0xB2, 0x58]).setBytes 0x30 [0x80, 0x00]) 0xB258 0x20) .start = .ok d .start := rfl
  have hfetch : fetch m.bus .word m.cpu.pc = .ok 0xB258 := by decide
  have hat : m.At d := Machine.at_of_lookup rfl hfetch hlookup hdecode
  have hread : Bus.read m.bus .word 0x30 = .ok 0x8000 := by decide
  have hsource : d.SourceHolds m 0x8000 := ⟨.postInc 0, rfl, .mem 0x30, ⟨_, rfl⟩, hread⟩
  obtain ⟨m', hstep, hordered, -, -, pc, hcodes⟩ := (step_compare hat (by decide)).1 _ hsource
  obtain ⟨r, hr, horders⟩ : ∃ r, d.dst = some (.dataReg r) ∧
      Condition.Orders m'.cpu.sr .word ((d.afterSource m.cpu).dataReg r) 0x8000 := hordered
  cases hr
  refine ⟨m', hstep, horders.gt.trans (by decide), horders.cs.trans (by decide), ?_⟩
  obtain ⟨sr, hcpu, -⟩ := hcodes
  have hkept : m'.cpu.dataReg 1 = (d.afterSource m.cpu).dataReg 1 := by
    rw [hcpu]
    rfl
  rw [hkept]
  decide

end Run

end ColdFire
