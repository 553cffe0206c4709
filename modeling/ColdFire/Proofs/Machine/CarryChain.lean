import ColdFire.Proofs.Cpu.CarryOverflow
import ColdFire.Proofs.Cpu.FlagBits
import ColdFire.Proofs.Machine.Extended
import ColdFire.Proofs.Word.Limbs
import Mathlib.Tactic.LinearCombination

namespace ColdFire

variable {β : Type} [Bus β]

namespace Extended

variable {k : Extended}

theorem result_toNat (k : Extended) (a b : UInt32) (x : Bool) :
    ((k.result a b x).toNat : Int) = k.alu.exact a.toNat b.toNat x.toNat % (2 ^ 32 : Nat) := by
  have halu : k.result a b x = k.alu.result a b x := by cases k <;> rfl
  rw [halu, AluOp.toNat_result]

theorem exact_of_emod (k : Extended) {a b r x : Nat} (ha : a < 2 ^ 32) (hb : b < 2 ^ 32)
    (hr : r < 2 ^ 32) (hx : x ≤ 1) (h : (r : Int) = k.alu.exact a b x % (2 ^ 32 : Nat)) :
    k.alu.exact a b x = r + (2 ^ 32 : Nat) *
      k.alu.exact 0 0 (decide (¬ FitsUnsigned 32 (k.alu.exact a b x))).toNat := by
  have hcases := eq_or_of_emod h
  by_cases hfits : FitsUnsigned 32 (k.alu.exact a b x)
  · rw [decide_eq_false (not_not_intro hfits)]
    unfold FitsUnsigned at hfits
    cases k <;> simp only [alu, AluOp.exact, Bool.toNat_false] at * <;> omega
  · rw [decide_eq_true hfits]
    unfold FitsUnsigned at hfits
    cases k <;> simp only [alu, AluOp.exact, Bool.toNat_true] at * <;> omega

theorem exact_cons (k : Extended) (a b A B : Int) {r x x' m : Int}
    (h : k.alu.exact a b x = r + m * k.alu.exact 0 0 x') :
    k.alu.exact (a + m * A) (b + m * B) x = r + m * k.alu.exact A B x' := by
  cases k with
  | add =>
    change a + b + x = r + m * (0 + 0 + x') at h
    change a + m * A + (b + m * B) + x = r + m * (A + B + x')
    linear_combination h
  | sub =>
    change a - b - x = r + m * (0 - 0 - x') at h
    change a + m * A - (b + m * B) - x = r + m * (A - B - x')
    linear_combination h
  | neg =>
    change 0 - b - x = r + m * (0 - 0 - x') at h
    change 0 - (b + m * B) - x = r + m * (0 - B - x')
    linear_combination h

/-- One instruction on a long of each number. It finds the condition codes of `cpu`; anything else
may have happened since. -/
def Link (β : Type) [Bus β] (k : Extended) (cpu : Cpu) (a b r : UInt32) (cpu' : Cpu) : Prop :=
  ∃ (m m' : Machine β) (d : Decoded) (target : UInt8),
    m.cpu.ccr = cpu.ccr ∧ m.At d ∧ d.mnemonic = k.mnemonic ∧ k.Reads d m.cpu target a b ∧
      Run.step .full m = .ok .running m' ∧ m'.cpu = cpu' ∧ cpu'.dataReg target = r

/-- An instruction is performed once for each long, the least significant first. -/
inductive Chain (β : Type) [Bus β] (k : Extended) :
    Cpu → List UInt32 → List UInt32 → List UInt32 → Cpu → Prop
  | single {cpu a b r cpu'} (link : k.Link β cpu a b r cpu') : Chain β k cpu [a] [b] [r] cpu'
  | cons {cpu a b r next as bs rs cpu'} (link : k.Link β cpu a b r next)
      (rest : Chain β k next as bs rs cpu') :
      Chain β k cpu (a :: as) (b :: bs) (r :: rs) cpu'

/-- What the longs so far have left, given the flags that they found. -/
structure Outcome (k : Extended) (x z : Bool) (as bs rs : List UInt32) (cpu : Cpu) : Prop where
  length : bs.length = as.length ∧ rs.length = as.length
  exact : k.alu.exact (Limbs.value as) (Limbs.value bs) x.toNat =
    Limbs.value rs + (2 ^ Limbs.bits as : Nat) * k.alu.exact 0 0 (cpu.flag .extend).toNat
  carry : cpu.flag .carry = cpu.flag .extend
  overflow : cpu.flag .overflow = decide (¬ FitsSigned (Limbs.bits as)
    (k.alu.exact (Limbs.signed as) (Limbs.signed bs) x.toNat))
  negative : cpu.flag .negative = (Limbs.value rs).testBit (Limbs.bits as - 1)
  zero : cpu.flag .zero = (z && decide (Limbs.value rs = 0))

section Outcome

variable {x z : Bool} {as bs rs : List UInt32} {cpu : Cpu}

theorem Outcome.result (h : k.Outcome x z as bs rs cpu) : (Limbs.value rs : Int) =
    k.alu.exact (Limbs.value as) (Limbs.value bs) x.toNat % (2 ^ Limbs.bits as : Nat) := by
  have hlt := Limbs.value_lt rs
  have hbits : Limbs.bits rs = Limbs.bits as := congrArg (32 * ·) h.length.2
  rw [hbits] at hlt
  rw [h.exact, Int.add_mul_emod_self_left]
  exact (Int.emod_eq_of_lt (by omega) (by omega)).symm

theorem Outcome.extend (h : k.Outcome x z as bs rs cpu) : cpu.flag .extend =
    decide (¬ FitsUnsigned (Limbs.bits as)
      (k.alu.exact (Limbs.value as) (Limbs.value bs) x.toNat)) := by
  have hlt := Limbs.value_lt rs
  have hbits : Limbs.bits rs = Limbs.bits as := congrArg (32 * ·) h.length.2
  rw [hbits] at hlt
  rw [h.exact, Bool.eq_iff_iff, decide_eq_true_iff]
  unfold FitsUnsigned
  generalize 2 ^ Limbs.bits as = range at *
  cases cpu.flag .extend <;> cases k <;>
    simp only [alu, AluOp.exact, Bool.toNat_false, Bool.toNat_true, reduceCtorEq, true_iff,
      false_iff] <;>
    omega

end Outcome

theorem outcome_after (k : Extended) (cpu : Cpu) (target : UInt8) (a b : UInt32) :
    k.Outcome (cpu.flag .extend) (cpu.flag .zero) [a] [b] [k.result a b (cpu.flag .extend)]
      (k.after cpu target a b) := by
  generalize hx : cpu.flag .extend = x
  have hr := k.result_toNat a b x
  -- the flags get the operands without the carry-in, and say all the same whether it carries
  have hflags := carryOverflow_eq k.alu .long (r := k.result a b x) (a := a) (b := b) (x := x)
    (by
      rw [Size.unsigned_long, Size.unsigned_long, Size.unsigned_long]
      exact hr)
  have hflag (f : Flag) := Cpu.flag_setArithFlags (cpu.setDataReg target (k.result a b x))
    (k.result a b x) a b .long true k.alu f
  have hop : k.alu ≠ .cmp := by cases k <;> exact nofun
  have hafter : k.after cpu target a b =
      (cpu.setDataReg target (k.result a b x)).setArithFlags (k.result a b x) a b .long true
        k.alu := by
    rw [after, hx]
  rw [hafter]
  have hcarry := hflag .carry
  have hextend := hflag .extend
  dsimp only at hcarry hextend
  rw [if_neg hop] at hextend
  exact {
    length := ⟨rfl, rfl⟩
    exact := by
      rw [hextend, hflags, Limbs.value_cons, Limbs.value_cons, Limbs.value_cons,
        Size.unsigned_long, Size.unsigned_long]
      exact k.exact_of_emod a.toNat_lt b.toNat_lt (UInt32.toNat_lt _) x.toNat_le hr
    carry := hcarry.trans hextend.symm
    overflow := by
      rw [hflag, hflags, Limbs.signed_singleton, Limbs.signed_singleton]
      rfl
    negative := by
      rw [hflag, Size.sign_eq_testBit, Limbs.value_cons, Limbs.value_nil]
      rfl
    zero := by
      rw [hflag, Limbs.value_cons, Limbs.value_nil, Size.unsigned_long]
      rfl }

/-- What one long hands on is all that the longs above need to know. -/
theorem Outcome.cons {x z : Bool} {a b r : UInt32} {as bs rs : List UInt32} {next cpu : Cpu}
    (h : k.Outcome x z [a] [b] [r] next)
    (hrest : k.Outcome (next.flag .extend) (next.flag .zero) as bs rs cpu) (has : as ≠ []) :
    k.Outcome x z (a :: as) (b :: bs) (r :: rs) cpu := by
  have hpos := List.length_pos_iff.2 has
  obtain ⟨hbs, hrs⟩ := hrest.length
  have hbs' : bs ≠ [] := List.length_pos_iff.1 (by omega)
  have hrs' : rs ≠ [] := List.length_pos_iff.1 (by omega)
  have hbits : Limbs.bits as = Limbs.bits rs := congrArg (32 * ·) hrs.symm
  have hlow : k.alu.exact a.toNat b.toNat x.toNat =
      r.toNat + 2 ^ 32 * k.alu.exact 0 0 (next.flag .extend).toNat := by
    have hwidth : Limbs.bits [a] = 32 := rfl
    simpa [hwidth] using h.exact
  exact {
    length := ⟨congrArg (· + 1) hbs, congrArg (· + 1) hrs⟩
    exact := by
      have hexact := k.exact_cons a.toNat b.toNat (Limbs.value as) (Limbs.value bs) hlow
      rw [hrest.exact] at hexact
      rw [Limbs.value_cons, Limbs.value_cons, Limbs.value_cons, Limbs.two_pow_bits_cons]
      push_cast at hexact ⊢
      rw [hexact]
      ring
    carry := hrest.carry
    -- the topmost long alone has a sign, so only the carry of those below comes in
    overflow := by
      have hexact := k.exact_cons a.toNat b.toNat (Limbs.signed as) (Limbs.signed bs) hlow
      rw [hrest.overflow, Limbs.signed_cons a has, Limbs.signed_cons b hbs', hexact,
        decide_eq_decide, Limbs.fitsSigned_cons a has]
    negative := by
      have hbits' : Limbs.bits (a :: as) = Limbs.bits (r :: rs) :=
        congrArg (fun n => 32 * (n + 1)) hrs.symm
      rw [hrest.negative, hbits, hbits', Limbs.testBit_value_cons r hrs']
    zero := by
      have hzero : next.flag .zero = (z && decide (Limbs.value [r] = 0)) := h.zero
      rw [hrest.zero, hzero, Bool.and_assoc, ← Bool.decide_and]
      congr 1
      rw [decide_eq_decide, Limbs.value_cons, Limbs.value_cons, Limbs.value_nil]
      omega }

theorem Link.outcome {cpu cpu' : Cpu} {a b r : UInt32} (h : k.Link β cpu a b r cpu') :
    k.Outcome (cpu.flag .extend) (cpu.flag .zero) [a] [b] [r] cpu' := by
  obtain ⟨m, m', d, target, hccr, hat, hname, hreads, hstep, rfl, rfl⟩ := h
  obtain ⟨target', a', b', pc, hreads', hstep'⟩ := hat.step_extended hname
  obtain ⟨rfl, rfl, rfl⟩ := hreads.unique hreads'
  cases hstep.symm.trans hstep'
  have hafter := k.outcome_after m.cpu target a b
  rw [← k.dataReg_after, Cpu.flag_of_ccr rfl hccr, Cpu.flag_of_ccr rfl hccr] at hafter
  exact ⟨hafter.length, hafter.exact, hafter.carry, hafter.overflow, hafter.negative, hafter.zero⟩

theorem Chain.nonempty {cpu cpu' : Cpu} {as bs rs : List UInt32}
    (h : k.Chain β cpu as bs rs cpu') : as ≠ [] := by
  cases h <;> exact List.cons_ne_nil _ _

/-- The longs of a chain are put together from the least significant one. -/
theorem Chain.outcome {cpu cpu' : Cpu} {as bs rs : List UInt32} (h : k.Chain β cpu as bs rs cpu') :
    k.Outcome (cpu.flag .extend) (cpu.flag .zero) as bs rs cpu' := by
  -- on the chain from its end, so the longs above are done when the lowest one is put below them
  induction h with
  | single link => exact link.outcome
  | cons link rest ih => exact link.outcome.cons ih rest.nonempty

def sample : Extended → Decoded
  | add => ⟨⟨some .long, some (.dataReg 0), some (.dataReg 1)⟩, "addx", 0xD380, 0, 0⟩
  | sub => ⟨⟨some .long, some (.dataReg 0), some (.dataReg 1)⟩, "subx", 0x9380, 0, 0⟩
  | neg => ⟨⟨some .long, none, some (.dataReg 1)⟩, "negx", 0x4081, 0, 0⟩

def machine (k : Extended) (status : UInt16) (a b : UInt32) : Machine LinearMemory :=
  let bytes := (k.sample.opcode >>> 8).toUInt8 :: [k.sample.opcode.toUInt8]
  let target := if k = neg then b else a
  ⟨{ ((Cpu.new {}).setDataReg 0 b).setDataReg 1 target with sr := status },
    (LinearMemory.zeroed 2 0).setBytes 0 bytes⟩

set_option maxRecDepth 2000 in
theorem machine_at (k : Extended) (status : UInt16) (a b : UInt32) :
    (k.machine status a b).At k.sample := by
  have hfetch : fetch (k.machine 0 0 0).bus .word 0 = .ok k.sample.opcode.toUInt32 := by
    cases k <;> decide
  cases k with
  | add =>
    have hlookup : Registry.full.lookup 0xD380 .c = some (Catalogue.all[18], 18) :=
      Registry.lookup_of_claims (by decide) (by decide)
    have hdecode : (Catalogue.all[18]).decode (.inMemory (machine add 0 0 0).bus 0xD380 0) .start =
        .ok (sample add) .start := rfl
    exact Machine.at_of_lookup rfl hfetch hlookup hdecode
  | sub =>
    have hlookup : Registry.full.lookup 0x9380 .c = some (Catalogue.all[19], 19) :=
      Registry.lookup_of_claims (by decide) (by decide)
    have hdecode : (Catalogue.all[19]).decode (.inMemory (machine sub 0 0 0).bus 0x9380 0) .start =
        .ok (sample sub) .start := rfl
    exact Machine.at_of_lookup rfl hfetch hlookup hdecode
  | neg =>
    have hlookup : Registry.full.lookup 0x4081 .c = some (Catalogue.all[21], 21) :=
      Registry.lookup_of_claims (by decide) (by decide)
    have hdecode : (Catalogue.all[21]).decode (.inMemory (machine neg 0 0 0).bus 0x4081 0) .start =
        .ok (sample neg) .start := rfl
    exact Machine.at_of_lookup rfl hfetch hlookup hdecode

theorem machine_reads (k : Extended) (status : UInt16) (b : UInt32) {a : UInt32}
    (ha : k = neg → a = 0) : k.Reads k.sample (k.machine status a b).cpu 1 a b := by
  cases k with
  | add | sub => exact ⟨rfl, rfl, 0, rfl, rfl⟩
  | neg => exact ⟨rfl, ha rfl, rfl⟩

theorem exists_chain (k : Extended) (cpu : Cpu) {as bs : List UInt32} (has : as ≠ [])
    (hlength : as.length = bs.length) (hzero : k = neg → ∀ a ∈ as, a = 0) :
    ∃ rs cpu', k.Chain LinearMemory cpu as bs rs cpu' := by
  have hlink (cpu : Cpu) (a b : UInt32) (ha : k = neg → a = 0) :
      ∃ r cpu', k.Link LinearMemory cpu a b r cpu' := by
    have hname : k.sample.mnemonic = k.mnemonic := by cases k <;> rfl
    have hreads := k.machine_reads cpu.sr b ha
    obtain ⟨target, a', b', pc, hreads', hstep⟩ := (k.machine_at cpu.sr a b).step_extended hname
    exact ⟨_, _, _, _, _, _, rfl, k.machine_at cpu.sr a b, hname, hreads, hstep, rfl, rfl⟩
  induction as generalizing bs cpu with
  | nil => exact absurd rfl has
  | cons a as ih =>
    cases bs with
    | nil => cases hlength
    | cons b bs =>
      obtain ⟨r, next, link⟩ := hlink cpu a b fun hk => hzero hk a List.mem_cons_self
      cases as with
      | nil =>
        obtain rfl : bs = [] := List.eq_nil_of_length_eq_zero (Nat.succ.inj hlength).symm
        exact ⟨_, _, .single link⟩
      | cons a' as =>
        obtain ⟨rs, cpu', rest⟩ := ih next (List.cons_ne_nil _ _) (Nat.succ.inj hlength)
          fun hk v hv => hzero hk v (List.mem_cons_of_mem a hv)
        exact ⟨_, _, .cons link rest⟩

end Extended

namespace Run

open Limbs in
/-- Numbers of many longs come out exact but for their range, and the flags say how the whole
operation went. Each instruction completes and changes nothing but its register and the flags. -/
theorem extended_chain (k : Extended) :
    (∀ (m : Machine β) d, m.At d → d.mnemonic = k.mnemonic →
      ∃ target a b m', k.Reads d m.cpu target a b ∧ step .full m = .ok .running m' ∧
        m'.bus = m.bus ∧ ∃ pc, Cpu.AgreesButCodes
          { m.cpu.setDataReg target (m'.cpu.dataReg target) with pc := pc } m'.cpu) ∧
    ∀ cpu as bs rs cpu', k.Chain β cpu as bs rs cpu' →
      cpu.flag .extend = false → cpu.flag .zero = true →
      let n := bits as
      let e := k.alu.exact (value as) (value bs) 0
      bs.length = as.length ∧ rs.length = as.length ∧ value rs = e % (2 ^ n : Nat) ∧
      cpu'.flag .extend = decide (¬ FitsUnsigned n e) ∧
      cpu'.flag .carry = decide (¬ FitsUnsigned n e) ∧
      cpu'.flag .overflow = decide (¬ FitsSigned n (k.alu.exact (signed as) (signed bs) 0)) ∧
      cpu'.flag .negative = (value rs).testBit (n - 1) ∧
      (cpu'.flag .zero = true ↔ ∀ r ∈ rs, r = 0) := by
  refine ⟨fun m d hat hname => ?_, fun cpu as bs rs cpu' hchain hextend hzero => ?_⟩
  · obtain ⟨target, a, b, pc, hreads, hstep⟩ := hat.step_extended hname
    have hresult : (k.after m.cpu target a b).dataReg target = _ := k.dataReg_after m.cpu target a b
    refine ⟨target, a, b, _, hreads, hstep, rfl, pc, ?_⟩
    change Cpu.AgreesButCodes
      { m.cpu.setDataReg target ((k.after m.cpu target a b).dataReg target) with pc := pc } _
    rw [hresult]
    exact (k.agreesButCodes_after m.cpu target a b).withPc pc
  · have h := hchain.outcome
    rw [hextend, hzero] at h
    have hcarry := h.extend
    refine ⟨h.length.1, h.length.2, h.result, hcarry, h.carry.trans hcarry, h.overflow,
      h.negative, ?_⟩
    rw [h.zero, Bool.true_and, decide_eq_true_iff]
    exact value_eq_zero

/-- The sum of one and minus one. A carry comes into the second long of minus one, which it takes
all the way round. -/
theorem extended_chain_wraps :
    ∃ rs cpu', Extended.add.Chain LinearMemory { (Cpu.new {}) with sr := 0x2704 } [1, 0]
        [0xFFFFFFFF, 0xFFFFFFFF] rs cpu' ∧
      rs.length = 2 ∧ (∀ r ∈ rs, r = 0) ∧ cpu'.flag .extend = true ∧ cpu'.flag .zero = true ∧
      cpu'.flag .overflow = false := by
  obtain ⟨rs, cpu', hchain⟩ : ∃ rs cpu', Extended.add.Chain LinearMemory
      { (Cpu.new {}) with sr := 0x2704 } [1, 0] [0xFFFFFFFF, 0xFFFFFFFF] rs cpu' :=
    Extended.add.exists_chain _ (List.cons_ne_nil _ _) rfl nofun
  obtain ⟨-, hlength, hvalue, hextend, -, hoverflow, -, hzero⟩ :=
    (extended_chain .add).2 _ _ _ _ _ hchain (by decide) (by decide)
  have hall : ∀ r ∈ rs, r = 0 := Limbs.value_eq_zero.1 (Int.ofNat.inj (hvalue.trans (by decide)))
  exact ⟨rs, cpu', hchain, hlength, hall, hextend.trans (by decide),
    hzero.2 hall, hoverflow.trans (by decide)⟩

end Run

end ColdFire
