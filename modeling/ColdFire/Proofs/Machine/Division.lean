import ColdFire.Proofs.Cpu.FlagBits
import ColdFire.Proofs.Machine.Instruction
import ColdFire.Proofs.Memory.Lawful
import ColdFire.Proofs.Word.Division

namespace ColdFire

def Catalogue.divisions : List String := ["divu", "divs", "remu", "rems"]

namespace Decoded

def dividesSigned (d : Decoded) : Bool := d.mnemonic == "divs" || d.mnemonic == "rems"

def givesRemainder (d : Decoded) : Bool := d.mnemonic == "remu" || d.mnemonic == "rems"

/-- The register with the dividend, and the one for the result. A remainder alone has a register of
its own. -/
def Divides (d : Decoded) (dividend target : UInt8) : Prop :=
  if d.givesRemainder then
    d.dst = some (.regPair target dividend) ∧ regIndex target ≠ regIndex dividend
  else d.dst = some (.dataReg dividend) ∧ target = dividend

/-- What the register for the result holds: a remainder alone, a word of each with the remainder
above, or a quotient. -/
def Receives (d : Decoded) (w : UInt32) (q r : Int) : Prop :=
  if d.givesRemainder then Size.long.number d.dividesSigned w = r
  else if d.sizeOrLong = .word then
    Size.word.number d.dividesSigned w = q ∧ Size.word.number d.dividesSigned (w >>> 16) = r
  else Size.long.number d.dividesSigned w = q

/-- The divisor as a register would hold it. -/
def widened (d : Decoded) (v : UInt32) : UInt32 :=
  if d.dividesSigned then d.sizeOrLong.signExtend v else v

def packed (d : Decoded) (q r : UInt32) : UInt32 :=
  if d.givesRemainder then r
  else if d.sizeOrLong = .word then (r <<< 16) ||| (q &&& 0xFFFF)
  else q

def divided (d : Decoded) (cpu : Cpu) (dividend target : UInt8) (divisor : UInt32) : Cpu :=
  match divide (cpu.dataReg dividend) divisor d.dividesSigned d.sizeOrLong.bits with
  | some (q, r) => (cpu.setDataReg target (d.packed q r)).setDivFlags (some q) d.sizeOrLong
  | none => cpu.setDivFlags none d.sizeOrLong

end Decoded

namespace Catalogue

theorem divides : ∀ d ∈ all, ∀ name ∈ d.mnemonic :: d.format.ownNames, name ∈ divisions →
    d.privileged = false ∧ (d.operation = .divideLong ∧ d.format = .divLong ∨
      ∃ signed, d.operation = .divideWord signed ∧ d.format = .eaToData .word ∧
        name = if signed then "divs" else "divu") := by
  decide +kernel

end Catalogue

namespace Format

variable {mnemonic name : String} {ops : Operands} {s : WordSource} {c c' : Cursor}

theorem read_eaToData {size : Size}
    (h : (eaToData size).read mnemonic s c = .ok (name, ops) c') : ops.size = some size := by
  simp only [read, Decoder.opcode_bind, Decoder.bind_eq_ok, Decoder.pure_eq_ok] at h
  obtain ⟨ea, _, _, hops, _⟩ := h
  cases hops
  rfl

theorem read_divLong_named (h : divLong.read mnemonic s c = .ok (name, ops) c') :
    ops.size = some .long ∧
      ((∃ q, ops.dst = some (.dataReg q) ∧ name ∈ ["divu", "divs"]) ∨
        ∃ r q, ops.dst = some (.regPair r q) ∧ regIndex r ≠ regIndex q ∧
          name ∈ ["remu", "rems"]) := by
  simp only [read, Decoder.opcode_bind, Decoder.bind_eq_ok] at h
  obtain ⟨ext, _, _, h⟩ := h
  split at h
  · exact absurd h Decoder.reserved_ne_ok
  split at h
  · exact absurd h Decoder.reserved_ne_ok
  simp only [Decoder.bind_eq_ok] at h
  obtain ⟨ea, _, _, h⟩ := h
  split at h
  · obtain ⟨hops, -⟩ := Decoder.pure_eq_ok.1 h
    obtain ⟨rfl, rfl⟩ := Prod.mk.inj hops
    refine ⟨rfl, .inl ⟨_, rfl, ?_⟩⟩
    split <;> decide
  · rename_i hne
    obtain ⟨hops, -⟩ := Decoder.pure_eq_ok.1 h
    obtain ⟨rfl, rfl⟩ := Prod.mk.inj hops
    refine ⟨rfl, .inr ⟨_, _, rfl, ?_, ?_⟩⟩
    · have hquotient : (Field.quotientReg.get ext).toNat < 2 ^ 3 :=
        Field.toNat_get_lt (by decide) ext
      have hremainder : (Field.remainderReg.get ext).toNat < 2 ^ 3 :=
        Field.toNat_get_lt (by decide) ext
      intro hsame
      have hval := congrArg Fin.val hsame
      simp only [regIndex, UInt16.toNat_toUInt8] at hval
      apply hne
      rw [← UInt8.toNat_inj, UInt16.toNat_toUInt8, UInt16.toNat_toUInt8]
      omega
    · split <;> decide

end Format

variable {β : Type} [Bus β]

namespace Exec

variable {d : Decoded} {src : Ea} {c c' : Context β} {v : UInt32} {fault : Fault}
  (hsrc : d.src = some src)

include hsrc

theorem divideWord_error {signed : Bool} (h : readEa src .word c = .error fault c') :
    divideWord signed d c = .error fault c' := by
  rw [divideWord, bind_source hsrc]
  exact bind_of_error h

theorem divideLong_error (h : readEa src .long c = .error fault c') :
    divideLong d c = .error fault c' := by
  rw [divideLong, bind_source hsrc]
  exact bind_of_error h

theorem divideWord_eq {r : UInt8} (hdst : d.dst = some (.dataReg r)) (hsize : d.sizeOrLong = .word)
    (hwhole : d.givesRemainder = false) (h : readEa src .word c = .ok v c') :
    divideWord d.dividesSigned d c =
      if d.widened v = 0 then .error (.exception .divideByZero) c'
      else .ok () { c' with cpu := d.divided c'.cpu r r (d.widened v) } := by
  have hdivisor : (if d.dividesSigned then Size.word.signExtend v else v) = d.widened v := by
    rw [Decoded.widened, hsize]
  have hbits : Size.word.bits = 16 := rfl
  rw [divideWord, bind_source hsrc, bind_of_ok h, bind_destination hdst, asDataReg, pure_bind,
    bind_cpu]
  dsimp only
  rw [hdivisor]
  by_cases hzero : d.widened v = 0
  · rw [if_pos hzero, if_pos hzero]
    rfl
  · rw [if_neg hzero, if_neg hzero, Decoded.divided, hsize, hbits]
    cases divide (c'.cpu.dataReg r) (d.widened v) d.dividesSigned 16 with
    | none => rfl
    | some result =>
      obtain ⟨q, rem⟩ := result
      have hpacked : d.packed q rem = (rem <<< 16) ||| (q &&& 0xFFFF) := by
        rw [Decoded.packed, hwhole, if_neg Bool.false_ne_true, if_pos hsize]
      dsimp only
      rw [hpacked]
      rfl

theorem divideLong_eq {dividend target : UInt8} (hdst : d.Divides dividend target)
    (hname : d.mnemonic ∈ Catalogue.divisions) (hsize : d.sizeOrLong = .long)
    (h : readEa src .long c = .ok v c') :
    divideLong d c =
      if d.widened v = 0 then .error (.exception .divideByZero) c'
      else .ok () { c' with cpu := d.divided c'.cpu dividend target (d.widened v) } := by
  have hdivisor : d.widened v = v := by
    rw [Decoded.widened, hsize]
    exact ite_self v
  have hsigned : "s".toList.isSuffixOf d.mnemonic.toList = d.dividesSigned := by
    unfold Decoded.dividesSigned
    simp only [Catalogue.divisions, List.mem_cons, List.not_mem_nil, or_false] at hname
    rcases hname with hname | hname | hname | hname <;> rw [hname] <;> decide
  have hbits : Size.long.bits = 32 := rfl
  rw [divideLong, bind_source hsrc, bind_of_ok h, hdivisor]
  by_cases hzero : v = 0
  · rw [if_pos hzero, if_pos hzero]
    rfl
  · rw [if_neg hzero, if_neg hzero, Decoded.divided, hsize, hbits]
    dsimp only
    rw [hsigned]
    unfold Decoded.Divides at hdst
    -- the remainder and the quotient take the two ways through the operands
    cases hrem : d.givesRemainder with
    | true =>
      rw [if_pos hrem] at hdst
      have hpacked (q rem : UInt32) : d.packed q rem = rem := if_pos hrem
      rw [bind_destination hdst.1]
      dsimp only
      rw [pure_bind, bind_cpu]
      cases divide (c'.cpu.dataReg dividend) v d.dividesSigned 32 with
      | none => rfl
      | some result =>
        dsimp only
        rw [hpacked]
        rfl
    | false =>
      rw [if_neg (by rw [hrem]; exact Bool.false_ne_true)] at hdst
      obtain ⟨hdst, rfl⟩ := hdst
      have hpacked (q rem : UInt32) : d.packed q rem = q := by
        rw [Decoded.packed, hrem, if_neg Bool.false_ne_true, hsize, if_neg (by decide)]
      rw [bind_destination hdst]
      dsimp only
      rw [pure_bind, bind_cpu]
      cases divide (c'.cpu.dataReg target) v d.dividesSigned 32 with
      | none => rfl
      | some result =>
        dsimp only
        rw [hpacked]
        rfl

end Exec

theorem Machine.Performs.divides {m : Machine β} {d : Decoded} {x : Definition} {c : Context β}
    (h : m.Performs d x c) (hname : d.mnemonic ∈ Catalogue.divisions) :
    x.privileged = false ∧ ∃ src dividend target, d.src = some src ∧ src.modes ≠ .none ∧
      d.Divides dividend target ∧
      (∀ fault c', Exec.readEa src d.sizeOrLong c = .error fault c' →
        Exec.perform x.operation d c = .error fault c') ∧
      ∀ v c', Exec.readEa src d.sizeOrLong c = .ok v c' → Exec.perform x.operation d c =
        if d.widened v = 0 then .error (.exception .divideByZero) c'
        else .ok () { c' with cpu := d.divided c'.cpu dividend target (d.widened v) } := by
  obtain ⟨hpriv, hform⟩ := Catalogue.divides x h.listed d.mnemonic h.named hname
  obtain ⟨s, cursor, hread⟩ := h.reads
  have htakes := h.takes
  refine ⟨hpriv, ?_⟩
  -- long divisions name one register or two, word divisions keep everything in one
  rcases hform with ⟨hop, hformat⟩ | ⟨signed, hop, hformat, hmnemonic⟩
  · rw [hop] at htakes ⊢
    rw [hformat] at hread
    obtain ⟨src, hsrc, -, hmodes⟩ := htakes.src
    obtain ⟨hsize, hregs⟩ := Format.read_divLong_named hread
    have hlong : d.sizeOrLong = .long := congrArg (·.getD .long) hsize
    obtain ⟨dividend, target, hdst⟩ : ∃ dividend target, d.Divides dividend target := by
      unfold Decoded.Divides Decoded.givesRemainder
      rcases hregs with ⟨q, hdst, hnamed⟩ | ⟨r, q, hdst, hne, hnamed⟩
      · refine ⟨q, q, ?_⟩
        simp only [List.mem_cons, List.not_mem_nil, or_false] at hnamed
        rcases hnamed with hnamed | hnamed <;> rw [hnamed] <;> exact ⟨hdst, rfl⟩
      · refine ⟨q, r, ?_⟩
        simp only [List.mem_cons, List.not_mem_nil, or_false] at hnamed
        rcases hnamed with hnamed | hnamed <;> rw [hnamed] <;> exact ⟨hdst, hne⟩
    refine ⟨src, dividend, target, hsrc, hmodes, hdst, fun fault c' herror => ?_,
      fun v c' hok => ?_⟩
    · rw [hlong] at herror
      exact Exec.divideLong_error hsrc herror
    · rw [hlong] at hok
      exact Exec.divideLong_eq hsrc hdst hname hlong hok
  · rw [hop] at htakes ⊢
    rw [hformat] at hread
    obtain ⟨src, hsrc, -, hmodes⟩ := htakes.src
    obtain ⟨r, hdst⟩ := Demand.meets_dn htakes.dst
    have hword : d.sizeOrLong = .word := congrArg (·.getD .long) (Format.read_eaToData hread)
    have hwhole : d.givesRemainder = false := by
      rw [Decoded.givesRemainder, hmnemonic]
      cases signed <;> rfl
    have hsigned : d.dividesSigned = signed := by
      rw [Decoded.dividesSigned, hmnemonic]
      cases signed <;> rfl
    have hdivides : d.Divides r r := by
      rw [Decoded.Divides, hwhole, if_neg Bool.false_ne_true]
      exact ⟨hdst, rfl⟩
    refine ⟨src, r, r, hsrc, hmodes, hdivides, fun fault c' herror => ?_, fun v c' hok => ?_⟩
    · rw [hword] at herror
      exact Exec.divideWord_error hsrc herror
    · rw [hword] at hok
      rw [← hsigned]
      exact Exec.divideWord_eq hsrc hdst hword hwhole hok

theorem Decoded.SourceHolds.lt [SizedBus β] {d : Decoded} {m : Machine β} {v : UInt32}
    (h : d.SourceHolds m v) : v.toNat < 2 ^ d.sizeOrLong.bits := by
  have hmask (w : UInt32) : (w &&& d.sizeOrLong.mask).toNat < 2 ^ d.sizeOrLong.bits := by
    rw [Size.toNat_and_mask]
    exact Nat.mod_lt _ (Nat.two_pow_pos _)
  obtain ⟨src, -, loc, -, hv⟩ := h
  cases loc with
  | data _ | addr _ | imm _ =>
    obtain rfl := hv
    exact hmask _
  | mem a => exact SizedBus.read_lt hv
  | special _ => exact hv.elim

namespace Decoded

/-- What a division leaves whose quotient fits. -/
structure Quotient (d : Decoded) (cpu cpu' : Cpu) (target : UInt8) (q r : Int) : Prop where
  register : ∃ w, d.Receives w q r ∧ (cpu.setDataReg target w).AgreesButCodes cpu'
  /-- The topmost bit of the quotient. -/
  negative : cpu'.flag .negative = decide (q < 0 ∨ (2 ^ (d.sizeOrLong.bits - 1) : Nat) ≤ q)
  zero : cpu'.flag .zero = decide (q = 0)
  overflow : cpu'.flag .overflow = false
  carry : cpu'.flag .carry = false
  extend : cpu'.flag .extend = cpu.flag .extend

/-- What a division leaves whose quotient does not fit. -/
structure NoQuotient (cpu cpu' : Cpu) : Prop where
  registers : cpu.AgreesButCodes cpu'
  overflow : cpu'.flag .overflow = true
  carry : cpu'.flag .carry = false
  negative : cpu'.flag .negative = cpu.flag .negative
  zero : cpu'.flag .zero = cpu.flag .zero
  extend : cpu'.flag .extend = cpu.flag .extend

variable {d : Decoded} {cpu cpu' : Cpu} {dividend target : UInt8}

theorem Quotient.withPc {q r : Int} (h : d.Quotient cpu cpu' target q r) (pc : UInt32) :
    d.Quotient { cpu with pc := pc } { cpu' with pc := pc } target q r := by
  obtain ⟨w, hw, hagrees⟩ := h.register
  exact ⟨⟨w, hw, hagrees.withPc pc⟩, h.negative, h.zero, h.overflow, h.carry, h.extend⟩

theorem NoQuotient.withPc (h : NoQuotient cpu cpu') (pc : UInt32) :
    NoQuotient { cpu with pc := pc } { cpu' with pc := pc } :=
  ⟨h.registers.withPc pc, h.overflow, h.carry, h.negative, h.zero, h.extend⟩

theorem state_divided (d : Decoded) (cpu : Cpu) (dividend target : UInt8) (divisor : UInt32) :
    (d.divided cpu dividend target divisor).state = cpu.state := by
  have hflags (cpu : Cpu) (q : Option UInt32) :
      (cpu.setDivFlags q d.sizeOrLong).state = cpu.state := by
    have hcodes : cpu.AgreesButCodes (cpu.setDivFlags q d.sizeOrLong) :=
      Cpu.agreesButCodes_setDivFlags q d.sizeOrLong
    obtain ⟨sr, hcpu, -⟩ := hcodes
    rw [hcpu]
  unfold divided
  split
  · exact hflags _ _
  · exact hflags _ _

theorem number_widened {v : UInt32} (hv : v.toNat < 2 ^ d.sizeOrLong.bits) :
    Size.long.number d.dividesSigned (d.widened v) = d.sizeOrLong.number d.dividesSigned v := by
  unfold widened
  cases d.dividesSigned with
  | true =>
    rw [if_pos rfl, Size.number_true, Size.number_true]
    exact d.sizeOrLong.signed_signExtend v
  | false =>
    rw [if_neg Bool.false_ne_true, Size.number_false, Size.number_false, Size.unsigned_long]
    exact congrArg Int.ofNat (Nat.mod_eq_of_lt hv).symm

theorem receives_packed {q r : UInt32}
    (hq : Fits d.dividesSigned d.sizeOrLong.bits (Size.long.number d.dividesSigned q))
    (hr : Fits d.dividesSigned d.sizeOrLong.bits (Size.long.number d.dividesSigned r)) :
    d.Receives (d.packed q r) (Size.long.number d.dividesSigned q)
      (Size.long.number d.dividesSigned r) := by
  unfold Receives packed
  by_cases hrem : d.givesRemainder = true
  · rw [if_pos hrem, if_pos hrem]
  · rw [if_neg hrem, if_neg hrem]
    by_cases hword : d.sizeOrLong = .word
    · rw [hword] at hq hr
      rw [if_pos hword, if_pos hword, Size.number_congr (Size.unsigned_low r q),
        Size.number_congr (Size.unsigned_high r q)]
      exact ⟨Size.number_eq_of_fits hq, Size.number_eq_of_fits hr⟩
    · rw [if_neg hword, if_neg hword]

theorem divided_quotient {divisor : UInt32} {n b : Int}
    (hn : Size.long.number d.dividesSigned (cpu.dataReg dividend) = n)
    (hb : Size.long.number d.dividesSigned divisor = b) (hne : b ≠ 0)
    (hdivisor : Fits d.dividesSigned d.sizeOrLong.bits b)
    (hfits : Fits d.dividesSigned d.sizeOrLong.bits (n.tdiv b)) :
    d.Quotient cpu (d.divided cpu dividend target divisor) target (n.tdiv b) (n.tmod b) := by
  have hdivision := Division.of_ne_zero n hne
  -- only the quotient is checked to fit: the remainder is smaller than a divisor that does
  have hremainder : Fits d.dividesSigned d.sizeOrLong.bits (n.tmod b) :=
    hdivision.fits hdivisor fun hunsigned => by
      rw [← hn, hunsigned]
      exact Int.natCast_nonneg _
  obtain ⟨q, r, hdivide, hq, hr⟩ := divide_of_fits (cpu.dataReg dividend) (hb ▸ hne)
    (hb.symm ▸ hn.symm ▸ hfits)
  rw [hn, hb] at hq hr
  have hsame : d.sizeOrLong.number d.dividesSigned q = n.tdiv b :=
    (Size.number_eq_of_fits (hq ▸ hfits)).trans hq
  rw [divided, hdivide]
  have hflag (f : Flag) := Cpu.flag_setLogicFlags (cpu.setDataReg target (d.packed q r)) q
    d.sizeOrLong f
  exact {
    register := by
      refine ⟨d.packed q r, ?_, Cpu.agreesButCodes_setDivFlags _ _⟩
      rw [← hq, ← hr]
      exact receives_packed (hq ▸ hfits) (hr ▸ hremainder)
    negative := by
      rw [← hsame, ← Size.sign_eq_number]
      exact hflag .negative
    zero := by
      refine (hflag .zero).trans ?_
      rw [← hsame, decide_eq_decide, Size.number_eq_zero]
    overflow := hflag .overflow
    carry := hflag .carry
    extend := hflag .extend }

theorem divided_noQuotient {divisor : UInt32} {n b : Int}
    (hn : Size.long.number d.dividesSigned (cpu.dataReg dividend) = n)
    (hb : Size.long.number d.dividesSigned divisor = b)
    (hfits : ¬ Fits d.dividesSigned d.sizeOrLong.bits (n.tdiv b)) :
    NoQuotient cpu (d.divided cpu dividend target divisor) := by
  subst hn hb
  rw [divided, divide_of_not_fits hfits]
  have hflag (f : Flag) := cpu.flag_setDivFlags_none d.sizeOrLong f
  exact {
    registers := Cpu.agreesButCodes_setDivFlags _ _
    overflow := hflag .overflow
    carry := hflag .carry
    negative := hflag .negative
    zero := hflag .zero
    extend := hflag .extend }

end Decoded

namespace Run

variable {m : Machine β} {d : Decoded}

/-- A division by zero raises its exception from the machine as it was. Another one completes. It
gives the exact quotient and remainder if the quotient fits, and leaves the data registers alone if
not. Nothing on the way is out of range of 64-bit words. -/
theorem step_divide [SizedBus β] (h : m.At d)
    (hname : d.mnemonic ∈ ["divu", "divs", "remu", "rems"]) :
    (∀ v, d.SourceHolds m v → ∃ dividend target, d.Divides dividend target ∧
      let isSigned := d.dividesSigned
      let size := d.sizeOrLong
      let n := Size.long.number isSigned (m.cpu.dataReg dividend)
      let b := size.number isSigned v
      let q := n.tdiv b
      let r := n.tmod b
      (b = 0 → step .full m = enter .divideByZero m.cpu.pc m) ∧
      (b ≠ 0 → Division n b q r ∧
        divideChecked (m.cpu.dataReg dividend) (d.widened v) isSigned size.bits =
          some (divide (m.cpu.dataReg dividend) (d.widened v) isSigned size.bits) ∧
        ∃ m' pc, step .full m = .ok .running m' ∧ m'.bus = m.bus ∧
          (Fits isSigned size.bits q →
            d.Quotient { d.afterSource m.cpu with pc := pc } m'.cpu target q r) ∧
          (¬ Fits isSigned size.bits q →
            Decoded.NoQuotient { d.afterSource m.cpu with pc := pc } m'.cpu))) ∧
    ((∀ v, ¬ d.SourceHolds m v) → ∃ t, step .full m = .error t m) := by
  obtain ⟨x, c, hx⟩ := h.performs
  obtain ⟨hpriv, src, dividend, target, hsrc, hmodes, hdivides, herror, hok⟩ := hx.divides hname
  rcases hx.source_cases hpriv hsrc hmodes herror with ⟨v, hv, hread⟩ | ⟨hnone, t, hstep⟩
  · refine ⟨fun v' hv' => ?_, fun hnone => absurd hv (hnone v)⟩
    obtain rfl := hv.unique hv'
    have hperform := hok v _ hread
    have hb := Decoded.number_widened hv.lt
    -- the divisor is zero just when what the step tests is
    have hzero : d.widened v = 0 ↔ d.sizeOrLong.number d.dividesSigned v = 0 := by
      rw [← hb, Size.number_eq_zero, Size.unsigned_long, ← UInt32.toNat_inj]
      rfl
    refine ⟨dividend, target, hdivides, fun hdivisor => ?_, fun hdivisor => ?_⟩
    · rw [if_pos (hzero.2 hdivisor)] at hperform
      rw [hx.ends hpriv _ _ hperform rfl hx.bus]
      rfl
    · rw [if_neg (mt hzero.1 hdivisor)] at hperform
      obtain ⟨addrs, hafter⟩ := d.afterSource_eq m.cpu
      have hn : (d.afterSource m.cpu).dataReg dividend = m.cpu.dataReg dividend := by
        rw [hafter]
        rfl
      have hstate : (d.afterSource m.cpu).state = .running := by
        rw [hafter]
        exact h.running
      obtain ⟨pc, hstep⟩ : ∃ pc, step .full m = .ok .running ⟨{ d.divided (d.afterSource m.cpu)
          dividend target (d.widened v) with pc := pc }, c.bus⟩ :=
        ⟨_, hx.step_eq hpriv hperform ((d.state_divided _ _ _ _).trans hstate)⟩
      refine ⟨Division.of_ne_zero _ hdivisor, divideChecked_eq _ _ _ (hb.trans_ne hdivisor), _, pc,
        hstep, hx.bus, fun hfits => ?_, fun hfits => ?_⟩
      · exact (Decoded.divided_quotient (congrArg _ hn) hb hdivisor
          (d.sizeOrLong.fits_number _ _) hfits).withPc pc
      · exact (Decoded.divided_noQuotient (congrArg _ hn) hb hfits).withPc pc
  · exact ⟨fun v hv => absurd hv (hnone v), fun _ => ⟨t, hstep⟩⟩

set_option maxRecDepth 2000 in
/-- A remainder with a sign, which takes the register of the divisor. -/
theorem step_divide_remainder :
    let m : Machine LinearMemory :=
      ⟨{ ((Cpu.new {}).setDataReg 0 0xFFFFFFF9).setDataReg 1 2 with pc := 0x20 },
        (LinearMemory.zeroed 0x40 0).setBytes 0x20 [0x4C, 0x41, 0x08, 0x01]⟩
    ∃ m', step .full m = .ok .running m' ∧ m'.cpu.dataReg 0 = 0xFFFFFFF9 ∧
      m'.cpu.dataReg 1 = 0xFFFFFFFF ∧ m'.cpu.flag .negative = true := by
  intro m
  let d : Decoded :=
    ⟨⟨some .long, some (.dataReg 1), some (.regPair 1 0)⟩, "rems", 0x4C41, 0x20, 1⟩
  have hlookup : Registry.full.lookup 0x4C41 .c = some (Catalogue.all[53], 53) :=
    Registry.lookup_of_claims (by decide) (by decide)
  have hdecode : (Catalogue.all[53]).decode (.inMemory ((LinearMemory.zeroed 0x40 0).setBytes 0x20
      [0x4C, 0x41, 0x08, 0x01]) 0x4C41 0x20) .start = .ok d ⟨1, 0⟩ := rfl
  have hfetch : fetch m.bus .word m.cpu.pc = .ok 0x4C41 := by decide
  have hat : m.At d := Machine.at_of_lookup rfl hfetch hlookup hdecode
  have hread : m.cpu.dataReg 1 &&& Size.long.mask = 2 := by decide
  have hsource : d.SourceHolds m 2 := ⟨.dataReg 1, rfl, .data 1, ⟨_, rfl⟩, hread⟩
  obtain ⟨dividend, target, ⟨hdst, -⟩, -, hdivided⟩ := (step_divide hat (by decide)).1 _ hsource
  cases hdst
  obtain ⟨-, -, m', pc, hstep, -, hquotient, -⟩ := hdivided (by decide)
  have h := hquotient (by decide +kernel)
  obtain ⟨w, hw, sr, hcpu, -⟩ := h.register
  have hr : (Size.long.number d.dividesSigned (m.cpu.dataReg 0)).tmod
      (d.sizeOrLong.number d.dividesSigned 2) = -1 := by decide +kernel
  have hrem : d.givesRemainder = true := by decide
  have hsigned : d.dividesSigned = true := by decide
  rw [hr, Decoded.Receives, if_pos hrem, hsigned, Size.number_true] at hw
  have hcases := Size.long.signed_cases w
  have hall : w = 0xFFFFFFFF := by
    rw [hw, Size.unsigned_long] at hcases
    rw [← UInt32.toNat_inj]
    change _ ∨ _ ∧ -1 = (_ : Int) - (2 ^ 32 : Nat) at hcases
    change w.toNat = 2 ^ 32 - 1
    omega
  refine ⟨m', hstep, ?_, ?_, h.negative.trans (by decide +kernel)⟩
  · rw [hcpu]
    rfl
  · rw [hcpu]
    exact (Cpu.dataReg_setDataReg _ _ _).trans hall

end Run

end ColdFire
