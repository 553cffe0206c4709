import ColdFire.Proofs.Instruction.Taken

namespace ColdFire

variable {β : Type} [Bus β]

namespace Operation

def pushes : Operation → Bool
  | pushAddress | link | call => true
  | branch cond => cond == 1
  | _ => false

def Jumps (op : Operation) (sr : UInt16) : Prop :=
  match op with
  | branch cond => cond = 1 ∨ Condition.holds cond sr = true
  | jump | call | returnFromCall | returnFromException => True
  | _ => False

end Operation

theorem RegList.lt_of_mem_members {mask : UInt16} {i : Nat} (h : i ∈ members mask) : i < 16 :=
  List.mem_range.1 (List.mem_filter.1 h).1

namespace Decoded

def afterSource (d : Decoded) (cpu : Cpu) : Cpu :=
  match d.src with
  | some ea => ea.stepped cpu d.sizeOrLong
  | none => cpu

/-- An instruction on the processor `cpu` may write a value of a size at an address, because its
destination is there: the operand itself, or one of the longs for a list of registers. -/
def StoresAt (d : Decoded) (cpu : Cpu) (pcBase addr : UInt32) (size : Size) : Prop :=
  ∃ ea base, d.dst = some ea ∧ ea.At (d.afterSource cpu) d.sizeOrLong pcBase (.mem base) ∧
    match d.src with
    | some (.regList mask) =>
      size = .long ∧ ∃ k < (RegList.members mask).length, addr = base + UInt32.ofNat (4 * k)
    | _ => size = d.sizeOrLong ∧ addr = base

/-- What an instruction may do to the processor `cpu` and to memory, given its operation. -/
def permit (d : Decoded) (op : Operation) (cpu : Cpu) (pcBase : UInt32) : Permit where
  data r := d.dst = some (.dataReg r) ∨
    (∃ mask, d.dst = some (.regList mask) ∧ r.toNat < 8 ∧ r.toNat ∈ RegList.members mask) ∨
    ∃ q, d.dst = some (.regPair r q)
  addr r := r = 7 ∨ d.dst = some (.addrReg r) ∨
    (∃ mask, d.dst = some (.regList mask) ∧ r.toNat + 8 ∈ RegList.members mask) ∨
    (∃ ea, (d.src = some ea ∨ d.dst = some ea) ∧ (ea = .postInc r ∨ ea = .preDec r)) ∨
    op = .link ∧ d.src = some (.addrReg r)
  memory addr size := d.StoresAt cpu pcBase addr size ∨
    op.pushes = true ∧ addr = cpu.sp - 4 ∧ size = .long
  jump := op.Jumps cpu.sr
  system := op = .halt ∨ op = .stop ∨ op = .returnFromException ∨
    ∃ reg, d.dst = some (.special reg) ∧ reg ≠ .ccr
  fault f := match f with
    | .exception .illegalInstruction => op = .illegal ∨
      ∃ code, d.dst = some (.special (.control code)) ∧ ControlRegister.position? code = none
    | .exception .divideByZero => op = .divideLong ∨ ∃ signed, op = .divideWord signed
    | .exception .formatError => op = .returnFromException
    | .exception (.trap _) => op = .trap
    | .exception _ => False
    | .trap (.bus ..) => True
    | .trap (.unsimulated ..) => op = .unsimulated
    | .trap _ => False
  stack := .inl rfl
  bus _ _ := trivial

variable {d : Decoded} {op : Operation} {cpu : Cpu} {pcBase : UInt32} {src dst ea : Ea}

theorem afterSource_of_src (h : d.src = some src) :
    d.afterSource cpu = src.stepped cpu d.sizeOrLong := by
  rw [afterSource, h]

theorem afterSource_of_absent (h : d.src = none) : d.afterSource cpu = cpu := by
  rw [afterSource, h]

theorem steps_src (h : d.src = some ea) : (d.permit op cpu pcBase).Steps ea :=
  fun _ hr => .inr (.inr (.inr (.inl ⟨ea, .inl h, hr⟩)))

theorem steps_dst (h : d.dst = some ea) : (d.permit op cpu pcBase).Steps ea :=
  fun _ hr => .inr (.inr (.inr (.inl ⟨ea, .inr h, hr⟩)))

theorem src_ne_list (hsrc : d.src = some src) (hne : src.modes ≠ .none) (mask : UInt16) :
    d.src ≠ some (.regList mask) := by
  rw [hsrc]
  rintro ⟨⟩
  exact hne rfl

theorem src_ne_list_of_count (h : src.IsCount) (hsrc : d.src = some src)
    (mask : UInt16) : d.src ≠ some (.regList mask) := by
  rw [hsrc]
  rintro ⟨⟩
  exact h

theorem writes_dataReg {r : UInt8} {cpu' : Cpu} {size size' : Size} {pcBase' : UInt32}
    {loc : Location} (h : d.dst = some (.dataReg r))
    (hloc : (Ea.dataReg r).At cpu' size' pcBase' loc) :
    (d.permit op cpu pcBase).Writes loc size := by
  obtain ⟨_, hloc⟩ := hloc
  cases hloc
  exact .inl h

theorem writes_register {cpu' : Cpu} {size size' : Size} {pcBase' : UInt32} {loc : Location}
    (hnames : dst.NamesRegister) (hdst : d.dst = some dst) (hloc : dst.At cpu' size' pcBase' loc) :
    (d.permit op cpu pcBase).Writes loc size := by
  obtain ⟨_, hloc⟩ := hloc
  cases dst with
  | dataReg r =>
    cases hloc
    exact .inl hdst
  | addrReg r =>
    cases hloc
    exact .inr (.inl hdst)
  | special reg =>
    cases hloc
    cases reg with
    | ccr => trivial
    | sr | usp => exact .inr (.inr (.inr ⟨_, hdst, nofun⟩))
    | control code =>
      exact ⟨.inr (.inr (.inr ⟨_, hdst, nofun⟩)), fun hcode => .inr ⟨code, hdst, hcode⟩⟩
    | cache _ => exact hnames.elim
  | _ => exact hnames.elim

theorem writes_dst {loc : Location} (hlist : ∀ mask, d.src ≠ some (.regList mask))
    (hdst : d.dst = some dst) (halter : Modes.alterable.contains dst.modes = true)
    (hne : dst.modes ≠ .none) (hloc : dst.At (d.afterSource cpu) d.sizeOrLong pcBase loc) :
    (d.permit op cpu pcBase).Writes loc d.sizeOrLong := by
  have hplace := hloc
  obtain ⟨update, hlocate⟩ := hloc
  -- an operand is found in a register only if it names it, and constants are not alterable
  cases loc with
  | data r =>
    cases dst with
    | dataReg _ =>
      cases hlocate
      exact .inl hdst
    | _ => cases hlocate
  | addr r =>
    cases dst with
    | addrReg _ =>
      cases hlocate
      exact .inr (.inl hdst)
    | _ => cases hlocate
  | mem addr =>
    refine .inl ⟨dst, addr, hdst, hplace, ?_⟩
    split
    · rename_i mask hsrc
      exact absurd hsrc (hlist mask)
    · exact ⟨rfl, rfl⟩
  | imm v =>
    cases dst with
    | immediate _ =>
      rw [Ea.modes] at halter
      exact absurd halter (by decide)
    | _ => cases hlocate
  | special reg =>
    cases dst with
    | special _ => exact absurd rfl hne
    | _ => cases hlocate

end Decoded

namespace Exec.Within

variable {c : Context β} {d : Decoded}

section Operand

variable {γ : Type} {p : Permit} {ea : Ea}

theorem bind_asDataReg {r : UInt8} {f : UInt8 → Exec β γ} (h : Within p (f r) c) :
    Within p (asDataReg (.dataReg r) >>= f) c := h

theorem bind_asAddrReg {r : UInt8} {f : UInt8 → Exec β γ} (h : Within p (f r) c) :
    Within p (asAddrReg (.addrReg r) >>= f) c := h

theorem bind_asList {mask : UInt16} {f : UInt16 → Exec β γ} (h : Within p (f mask) c) :
    Within p (asList (.regList mask) >>= f) c := h

theorem bind_shiftCount {f : UInt32 → Exec β γ} (hea : ea.IsCount)
    (h : ∀ n, Within p (f n) c) :
    Within p (shiftCount ea >>= f) c := by
  cases ea with
  | dataReg _ | immediate _ => exact h _
  | _ => exact hea.elim

theorem bind_bitNumber {f : UInt32 → Exec β γ} (hea : ea.IsCount)
    (h : ∀ n, Within p (f n) c) :
    Within p (bitNumber ea >>= f) c := by
  cases ea with
  | dataReg _ | immediate _ => exact h _
  | _ => exact hea.elim

end Operand

theorem arith {op : ArithOp} (h : (Operation.arith op).Takes d.toOperands) :
    Within (d.permit (.arith op) c.cpu c.pcBase) (arith op d) c := by
  obtain ⟨src, hsrc, -, hsrcne⟩ := h.src
  obtain ⟨dst, hdst, halter, hdstne⟩ := h.dst
  refine .bind_source hsrc (.bind_destination hdst ?_)
  refine .bind_readEa (.of_modes hsrcne) (Decoded.steps_src hsrc) fun b => ?_
  refine .bind_resolve (.of_modes hdstne) (Decoded.steps_dst hdst) fun loc hloc => ?_
  refine .bind_read (.of_modes hdstne) hloc fun a => ?_
  refine .ite (.bind (.write _ ?_) fun _ c' _ => ?_) ?_
  · rw [← Decoded.afterSource_of_src hsrc] at hloc
    exact Decoded.writes_dst (Decoded.src_ne_list hsrc hsrcne) hdst halter hdstne hloc
  -- Whether anything was written or not, an address register has no flags.
  all_goals
    split
    · exact .pure ()
    · exact .flags (Cpu.agreesButCodes_setArithFlags ..)

theorem addressArith {op : ArithOp} (h : (Operation.addressArith op).Takes d.toOperands) :
    Within (d.permit (.addressArith op) c.cpu c.pcBase) (addressArith op d) c := by
  obtain ⟨src, hsrc, -, hsrcne⟩ := h.src
  obtain ⟨r, hdst⟩ := Demand.meets_an h.dst
  refine .bind_source hsrc (.bind_destination hdst ?_)
  refine .bind_readEa (.of_modes hsrcne) (Decoded.steps_src hsrc) fun b => ?_
  refine .bind_asAddrReg (.bind_cpu ?_)
  exact .ite (.flags (Cpu.agreesButCodes_setArithFlags ..))
    (.modifyCpu (.addr _ (.inr (.inl hdst))))

theorem extendedArith {op : ArithOp} (h : (Operation.extendedArith op).Takes d.toOperands) :
    Within (d.permit (.extendedArith op) c.cpu c.pcBase) (extendedArith op d) c := by
  obtain ⟨s, hsrc⟩ := Demand.meets_dn h.src
  obtain ⟨r, hdst⟩ := Demand.meets_dn h.dst
  refine .bind_source hsrc (.bind_destination hdst ?_)
  refine .bind_readEa trivial (Decoded.steps_src hsrc) fun b => ?_
  refine .bind_resolve trivial (Decoded.steps_dst hdst) fun loc hloc => ?_
  refine .bind_read (.dataReg r) hloc fun a => .bind_cpu ?_
  refine .bind (.write _ (Decoded.writes_dataReg hdst hloc)) fun _ c' _ => ?_
  exact .flags (Cpu.agreesButCodes_setArithFlags ..)

theorem negate {withExtend : Bool} (h : (Operation.negate withExtend).Takes d.toOperands) :
    Within (d.permit (.negate withExtend) c.cpu c.pcBase) (negate withExtend d) c := by
  obtain ⟨r, hdst⟩ := Demand.meets_dn h.dst
  refine .bind_destination hdst ?_
  refine .bind_resolve trivial (Decoded.steps_dst hdst) fun loc hloc => ?_
  refine .bind_read (.dataReg r) hloc fun b => .bind_cpu ?_
  refine .bind (.write _ (Decoded.writes_dataReg hdst hloc)) fun _ c' _ => ?_
  exact .flags (Cpu.agreesButCodes_setArithFlags ..)

theorem shift {kind : ShiftKind} (h : (Operation.shift kind).Takes d.toOperands) :
    Within (d.permit (.shift kind) c.cpu c.pcBase) (shift kind d) c := by
  obtain ⟨src, hsrc, hcount⟩ := h.suits
  obtain ⟨r, hdst⟩ := Demand.meets_dn h.dst
  refine .bind_source hsrc (.bind_shiftCount hcount fun count => .bind_destination hdst ?_)
  refine .bind_resolve trivial (Decoded.steps_dst hdst) fun loc hloc => ?_
  refine .bind_read (.dataReg r) hloc fun v => .ite ?_ ?_
  · exact .flags (Cpu.agreesButCodes_setLogicFlags _ _)
  refine .bind (.write _ (Decoded.writes_dataReg hdst hloc)) fun _ c' _ => ?_
  refine .bind (.flags (Cpu.agreesButCodes_setLogicFlags _ _)) fun _ c' _ => ?_
  exact .flags ((Cpu.agreesButCodes_setFlag rfl _).trans
    (Cpu.agreesButCodes_setFlag rfl _))

theorem bit {op : BitOp} (h : (Operation.bit op).Takes d.toOperands) :
    Within (d.permit (.bit op) c.cpu c.pcBase) (bit op d) c := by
  obtain ⟨src, hsrc, hnumber⟩ := Demand.meets_dn_imm h.src
  obtain ⟨dst, hdst, hne, halter⟩ : ∃ dst, d.dst = some dst ∧ dst.modes ≠ .none ∧
      (op ≠ .test → Modes.alterable.contains dst.modes = true) := by
    have hmeets := h.dst
    cases op with
    | test =>
      obtain ⟨dst, hdst, -, hne⟩ := hmeets
      exact ⟨dst, hdst, hne, absurd rfl⟩
    | _ =>
      obtain ⟨dst, hdst, halter, hne⟩ := hmeets
      exact ⟨dst, hdst, hne, fun _ => halter⟩
  refine .bind_source hsrc (.bind_bitNumber hnumber fun n => .bind_destination hdst ?_)
  refine .bind_resolve (.of_modes hne) (Decoded.steps_dst hdst) fun loc hloc => ?_
  refine .bind_read (.of_modes hne) hloc fun v => ?_
  refine .bind (.flags (Cpu.agreesButCodes_setFlag rfl _)) fun _ c' _ => ?_
  split
  · rename_i hop
    have hsize : d.sizeOrLong = dst.bitSize := by
      rw [Decoded.sizeOrLong, h.suits dst hdst, Option.getD_some]
    have hafter : d.afterSource c.cpu = c.cpu := by
      rw [Decoded.afterSource_of_src hsrc, hnumber.stepped_eq]
    rw [← hsize, ← hafter] at hloc
    rw [← hsize]
    have hlist := Decoded.src_ne_list_of_count hnumber hsrc
    exact .write _ (Decoded.writes_dst hlist hdst (halter hop) hne hloc)
  · exact .pure ()

theorem multiplyWord {signed : Bool} (h : (Operation.multiplyWord signed).Takes d.toOperands) :
    Within (d.permit (.multiplyWord signed) c.cpu c.pcBase) (multiplyWord signed d) c := by
  obtain ⟨src, hsrc, -, hsrcne⟩ := h.src
  obtain ⟨r, hdst⟩ := Demand.meets_dn h.dst
  refine .bind_source hsrc ?_
  refine .bind_readEa (.of_modes hsrcne) (Decoded.steps_src hsrc) fun b => ?_
  refine .bind_destination hdst (.bind_asDataReg (.bind_cpu ?_))
  refine .bind_modifyCpu (.data _ (.inl hdst)) ?_
  exact .flags (Cpu.agreesButCodes_setLogicFlags _ _)

/-- Division by zero is raised before anything is written. -/
theorem divideWord {signed : Bool} (h : (Operation.divideWord signed).Takes d.toOperands) :
    Within (d.permit (.divideWord signed) c.cpu c.pcBase) (divideWord signed d) c := by
  obtain ⟨src, hsrc, -, hsrcne⟩ := h.src
  obtain ⟨r, hdst⟩ := Demand.meets_dn h.dst
  refine .bind_source hsrc ?_
  refine .bind_readEa (.of_modes hsrcne) (Decoded.steps_src hsrc) fun b => ?_
  refine .bind_destination hdst (.bind_asDataReg (.bind_cpu (.ite ?_ ?_)))
  · exact .raise (.inr ⟨signed, rfl⟩)
  dsimp only
  split
  · refine .bind_modifyCpu (.data _ (.inl hdst)) ?_
    exact .flags (Cpu.agreesButCodes_setDivFlags _ _)
  · exact .flags (Cpu.agreesButCodes_setDivFlags _ _)

theorem multiplyLong (h : Operation.multiplyLong.Takes d.toOperands) :
    Within (d.permit .multiplyLong c.cpu c.pcBase) (multiplyLong d) c := by
  obtain ⟨src, hsrc, -, hsrcne⟩ := h.src
  obtain ⟨r, hdst⟩ := Demand.meets_dn h.dst
  refine .bind_source hsrc ?_
  refine .bind_readEa (.of_modes hsrcne) (Decoded.steps_src hsrc) fun b => ?_
  refine .bind_destination hdst (.bind_asDataReg (.bind_cpu ?_))
  refine .bind_modifyCpu (.data _ (.inl hdst)) ?_
  exact .flags (Cpu.agreesButCodes_setLogicFlags _ _)

theorem divideLong (h : Operation.divideLong.Takes d.toOperands) :
    Within (d.permit .divideLong c.cpu c.pcBase) (divideLong d) c := by
  obtain ⟨src, hsrc, -, hsrcne⟩ := h.src
  refine .bind_source hsrc ?_
  refine .bind_readEa (.of_modes hsrcne) (Decoded.steps_src hsrc) fun b => .ite ?_ ?_
  · exact .raise (.inl rfl)
  rcases h.suits with ⟨q, hdst⟩ | ⟨r, q, hdst⟩
  all_goals
    refine .bind_destination hdst ?_
    simp only [pure_bind]
    refine .bind_cpu ?_
    split
  · refine .bind_modifyCpu (.data _ (.inl hdst)) ?_
    exact .flags (Cpu.agreesButCodes_setDivFlags _ _)
  · exact .flags (Cpu.agreesButCodes_setDivFlags _ _)
  · refine .bind_modifyCpu (.data _ (.inr (.inr ⟨q, hdst⟩))) ?_
    exact .flags (Cpu.agreesButCodes_setDivFlags _ _)
  · exact .flags (Cpu.agreesButCodes_setDivFlags _ _)

theorem link (h : Operation.link.Takes d.toOperands) :
    Within (d.permit .link c.cpu c.pcBase) (link d) c := by
  obtain ⟨r, hsrc⟩ := Demand.meets_an h.src
  obtain ⟨v, hdst⟩ := Demand.meets_imm h.dst
  refine .bind_source hsrc (.bind_destination hdst (.bind_cpu ?_))
  refine .bind (.push _ (.inr ⟨rfl, rfl, rfl⟩)) fun _ c' _ => .bind_cpu ?_
  refine .bind_modifyCpu (.addr _ (.inr (.inr (.inr (.inr ⟨rfl, hsrc⟩))))) ?_
  exact .modifyCpu (.addr _ (Permit.stack _))

theorem unlink (h : Operation.unlink.Takes d.toOperands) :
    Within (d.permit .unlink c.cpu c.pcBase) (unlink d) c := by
  obtain ⟨r, hdst⟩ := Demand.meets_an h.dst
  refine .bind_destination hdst (.bind_asAddrReg ?_)
  refine .bind_modifyCpu (.addr _ (Permit.stack _)) ?_
  exact .bind .pull fun v c' _ => .modifyCpu (.addr _ (.inr (.inl hdst)))

theorem branch {cond : UInt16} (h : (Operation.branch cond).Takes d.toOperands) :
    Within (d.permit (.branch cond) c.cpu c.pcBase) (branch cond d) c := by
  obtain ⟨off, hsrc, -⟩ := h.suits
  refine .bind_source hsrc ?_
  dsimp only
  split
  · rename_i hcall
    refine .bind_nextPc (.bind (.push _ (.inr ⟨beq_iff_eq.2 hcall, rfl, rfl⟩)) fun _ c' _ => ?_)
    exact .jumpTo _ (.inl hcall)
  · refine .bind_cpu ?_
    split
    · rename_i hholds
      exact .jumpTo _ (.inr hholds)
    · exact .pure ()

theorem returnFromException :
    Within (d.permit .returnFromException c.cpu c.pcBase) returnFromException c := by
  refine .bind .pull fun frame c' _ => .bind .pull fun pc c'' _ => .ite ?_ ?_
  · exact .raise rfl
  · refine .bind_modifyCpu (.system (.inr (.inr (.inl rfl))) ?_ ?_) (.jumpTo _ trivial)
    · exact Cpu.d_setSr _ _
    · intro i hi
      rw [Cpu.a_setSr _ _ i hi, Cpu.a_setSp _ _ i hi]

section Listed

variable {p : Permit}

theorem storeListed {members : List Nat} {addr : UInt32}
    (h : ∀ k < members.length, p.memory (addr + UInt32.ofNat (4 * k)) .long) :
    Within p (storeListed members addr) c := by
  -- long by long; the permit is for the whole list, so it has the rest of it too
  induction members generalizing addr c with
  | nil => exact .pure ()
  | cons i rest ih =>
    have hfirst := h 0 (Nat.zero_lt_succ _)
    rw [Nat.mul_zero, show UInt32.ofNat 0 = 0 from rfl, UInt32.add_zero] at hfirst
    refine .bind_cpu (.bind (.writeMem _ hfirst) fun _ c' _ => ih fun k hk => ?_)
    have hnext := h (k + 1) (Nat.succ_lt_succ hk)
    rwa [Nat.mul_succ, add_ofNat_four] at hnext

theorem loadListed {members : List Nat} {addr : UInt32}
    (hdata : ∀ i ∈ members, i < 8 → p.data (UInt8.ofNat i))
    (haddr : ∀ i ∈ members, ¬ i < 8 → p.addr (UInt8.ofNat (i - 8))) :
    Within p (loadListed members addr) c := by
  induction members generalizing addr c with
  | nil => exact .pure ()
  | cons i rest ih =>
    refine .bind_readMem fun v _ => .bind_modifyCpu ?_ (ih ?_ ?_)
    · unfold Cpu.setListed
      split
      · rename_i hi
        exact .data _ (hdata i (List.mem_cons_self ..) hi)
      · rename_i hi
        exact .addr _ (haddr i (List.mem_cons_self ..) hi)
    · exact fun j hj => hdata j (List.mem_cons_of_mem _ hj)
    · exact fun j hj => haddr j (List.mem_cons_of_mem _ hj)

end Listed

/-- An operation with the operands that it takes does no more than its instruction permits. -/
theorem perform {op : Operation} (h : op.Takes d.toOperands) :
    Within (d.permit op c.cpu c.pcBase) (perform op d) c := by
  -- finding an operand may step its register, reading it may fail, and only the destination is
  -- written; what takes longer has a lemma of its own above
  cases op with
  | arith op => exact .arith h
  | addressArith op => exact .addressArith h
  | extendedArith op => exact .extendedArith h
  | negate withExtend => exact .negate h
  | clear =>
    obtain ⟨dst, hdst, halter, hne⟩ := Demand.meets_of_admits (d := .modes .alterable) rfl h.dst
    have hsrc : d.src = none := h.src
    refine .bind_destination hdst ?_
    refine .bind (.writeEa _ (.of_modes hne) (Decoded.steps_dst hdst) fun loc hloc => ?_)
      fun _ c' _ => .flags (Cpu.agreesButCodes_setLogicFlags _ _)
    refine Decoded.writes_dst (fun mask => ?_) hdst halter hne ?_
    · rw [hsrc]
      exact nofun
    · rwa [Decoded.afterSource_of_absent hsrc]
  | test =>
    obtain ⟨src, hsrc, -, hne⟩ := h.src
    refine .bind_source hsrc ?_
    refine .bind_readEa (.of_modes hne) (Decoded.steps_src hsrc) fun v => ?_
    exact .flags (Cpu.agreesButCodes_setLogicFlags _ _)
  | extend narrow =>
    obtain ⟨r, hdst⟩ := Demand.meets_dn h.dst
    refine .bind_destination hdst ?_
    refine .bind_resolve trivial (Decoded.steps_dst hdst) fun loc hloc => ?_
    refine .bind_read (.dataReg r) hloc fun v => ?_
    refine .bind (.write _ (Decoded.writes_dataReg hdst hloc)) fun _ c' _ => ?_
    exact .flags (Cpu.agreesButCodes_setLogicFlags _ _)
  | logic op =>
    obtain ⟨src, hsrc, -, hsrcne⟩ := h.src
    obtain ⟨dst, hdst, halter, hdstne⟩ := h.dst
    have hsize : d.sizeOrLong = .long := h.size rfl
    refine .bind_source hsrc ?_
    refine .bind_readEa (.of_modes hsrcne) (Decoded.steps_src hsrc) fun b => ?_
    refine .bind_destination hdst ?_
    refine .bind (.modifyEa _ (.of_modes hdstne) (Decoded.steps_dst hdst) fun loc hloc => ?_)
      fun _ c' _ => .flags (Cpu.agreesButCodes_setLogicFlags _ _)
    rw [← hsize, ← Decoded.afterSource_of_src hsrc] at hloc
    rw [← hsize]
    exact Decoded.writes_dst (Decoded.src_ne_list hsrc hsrcne) hdst halter hdstne hloc
  | complement | swapHalves =>
    obtain ⟨r, hdst⟩ := Demand.meets_dn h.dst
    refine .bind_destination hdst ?_
    refine .bind (.modifyEa _ trivial (Decoded.steps_dst hdst) fun loc hloc => ?_)
      fun _ c' _ => .flags (Cpu.agreesButCodes_setLogicFlags _ _)
    exact Decoded.writes_dataReg hdst hloc
  | shift kind => exact .shift h
  | bit op => exact .bit h
  | multiplyWord signed => exact .multiplyWord h
  | divideWord signed => exact .divideWord h
  | multiplyLong => exact .multiplyLong h
  | divideLong => exact .divideLong h
  | move =>
    obtain ⟨src, hsrc, -, hsrcne⟩ := h.src
    obtain ⟨dst, hdst, halter, hdstne⟩ := h.dst
    refine .bind_source hsrc ?_
    refine .bind_readEa (.of_modes hsrcne) (Decoded.steps_src hsrc) fun v => ?_
    refine .bind_destination hdst ?_
    refine .bind (.writeEa _ (.of_modes hdstne) (Decoded.steps_dst hdst) fun loc hloc => ?_)
      fun _ c' _ => .flags (Cpu.agreesButCodes_setLogicFlags _ _)
    rw [← Decoded.afterSource_of_src hsrc] at hloc
    exact Decoded.writes_dst (Decoded.src_ne_list hsrc hsrcne) hdst halter hdstne hloc
  | transfer =>
    obtain ⟨src, dst, hsrc, hdst, hreadable, hnames⟩ := h.suits
    refine .bind_source hsrc ?_
    refine .bind_readEa hreadable (Decoded.steps_src hsrc) fun v => ?_
    refine .bind_destination hdst ?_
    refine .writeEa _ hnames.isPlace (Decoded.steps_dst hdst) fun loc hloc => ?_
    exact Decoded.writes_register hnames hdst hloc
  | moveExtend signed =>
    obtain ⟨src, hsrc, -, hsrcne⟩ := h.src
    obtain ⟨r, hdst⟩ := Demand.meets_dn h.dst
    refine .bind_source hsrc ?_
    refine .bind_readEa (.of_modes hsrcne) (Decoded.steps_src hsrc) fun raw => ?_
    refine .bind_destination hdst ?_
    refine .bind (.writeEa _ trivial (Decoded.steps_dst hdst) fun loc hloc => ?_)
      fun _ c' _ => .flags (Cpu.agreesButCodes_setLogicFlags _ _)
    exact Decoded.writes_dataReg hdst hloc
  | storeList =>
    obtain ⟨mask, hsrc⟩ := h.src
    obtain ⟨dst, hdst, hmodes, hne⟩ := Demand.meets_of_admits (d := .modes .control) rfl h.dst
    refine .bind_source hsrc (.bind_asList (.bind_destination hdst ?_))
    refine .bind_addressOf hmodes hne fun addr haddr => .storeListed fun k hk => ?_
    refine .inl ⟨dst, addr, hdst, ?_, ?_⟩
    · rw [show d.sizeOrLong = .long from h.size rfl, Decoded.afterSource_of_src hsrc]
      exact haddr
    · rw [hsrc]
      exact ⟨rfl, k, hk, rfl⟩
  | loadList =>
    obtain ⟨src, hsrc, hmodes, hne⟩ := h.src
    obtain ⟨mask, hdst⟩ := h.dst
    refine .bind_destination hdst (.bind_asList (.bind_source hsrc ?_))
    refine .bind_addressOf hmodes hne fun addr _ => ?_
    refine .loadListed (fun i hi hlt => ?_) fun i hi hge => ?_
    · refine .inr (.inl ⟨mask, hdst, ?_⟩)
      rw [UInt8.toNat_ofNat_of_lt' (show i < 256 by omega)]
      exact ⟨hlt, hi⟩
    · have hlt : i < 16 := RegList.lt_of_mem_members hi
      refine .inr (.inr (.inl ⟨mask, hdst, ?_⟩))
      rwa [UInt8.toNat_ofNat_of_lt' (show i - 8 < 256 by omega),
        Nat.sub_add_cancel (Nat.not_lt.1 hge)]
  | loadAddress =>
    obtain ⟨src, hsrc, hmodes, hne⟩ := h.src
    obtain ⟨r, hdst⟩ := Demand.meets_an h.dst
    refine .bind_source hsrc (.bind_addressOf hmodes hne fun addr haddr => ?_)
    refine .bind_destination hdst ?_
    refine .writeEa _ trivial (Decoded.steps_dst hdst) fun loc hloc => ?_
    exact Decoded.writes_register (show Ea.NamesRegister (.addrReg r) from trivial) hdst hloc
  | pushAddress =>
    obtain ⟨src, hsrc, hmodes, hne⟩ := h.src
    refine .bind_source hsrc (.bind_addressOf hmodes hne fun addr haddr => ?_)
    exact .push _ (.inr ⟨rfl, rfl, rfl⟩)
  | link => exact .link h
  | unlink => exact .unlink h
  | branch cond => exact .branch h
  | setCondition =>
    obtain ⟨r, hdst⟩ := Demand.meets_dn h.dst
    refine .bind_cpu (.bind_destination hdst ?_)
    refine .writeEa _ trivial (Decoded.steps_dst hdst) fun loc hloc => ?_
    exact Decoded.writes_dataReg hdst hloc
  | nothing => exact .pure ()
  | jump =>
    obtain ⟨src, hsrc, hmodes, hne⟩ := h.src
    refine .bind_source hsrc (.bind_addressOf hmodes hne fun addr haddr => ?_)
    exact .jumpTo _ trivial
  | call =>
    obtain ⟨src, hsrc, hmodes, hne⟩ := h.src
    refine .bind_source hsrc (.bind_addressOf hmodes hne fun addr haddr => .bind_nextPc ?_)
    refine .bind (.push _ (.inr ⟨rfl, rfl, rfl⟩)) fun _ c' _ => ?_
    exact .jumpTo _ trivial
  | returnFromCall => exact .bind .pull fun v c' _ => .jumpTo _ trivial
  | illegal => exact .raise (.inl rfl)
  | halt =>
    refine .modifyCpu (f := ({ · with state := .halted })) ?_
    exact .system (.inl rfl) rfl fun _ _ => rfl
  | returnFromException => exact .returnFromException
  | stop =>
    obtain ⟨v, hsrc⟩ := Demand.meets_imm h.src
    refine .bind_source hsrc ?_
    refine .bind_readEa trivial (Decoded.steps_src hsrc) fun sr => ?_
    exact .modifyCpu (.system (.inr (.inl rfl)) (Cpu.d_setSr _ _) (Cpu.a_setSr _ _))
  | trap => exact .raise rfl
  | unsimulated => exact .fail rfl

end Exec.Within

end ColdFire
