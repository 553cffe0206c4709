import ColdFire.Execution.Perform
import ColdFire.Proofs.Execution.Undo
import ColdFire.Proofs.Instruction.Plain
import ColdFire.Proofs.Memory.StandIn

namespace ColdFire

open StandIn (Alike)

variable {α ρ β γ : Type}

def Fault.IsBusError : Fault → Prop
  | .exception _ => False
  | .trap t => t.IsBusError

def Context.over (c : Context β) (bus : γ) : Context γ :=
  ⟨c.cpu, bus, c.pc, c.opcode, c.cursor, c.jump, c.journal⟩

namespace WordSource

/-- A source has whatever words another one has, which lacks words only because of its bus. -/
structure Supplies (s s' : WordSource) : Prop where
  opcode : s'.opcode = s.opcode
  address : s'.address = s.address
  extension : ∀ i, match s.extension i with
    | .ok w => s'.extension i = .ok w
    | .error t => t.IsBusError

end WordSource

namespace Decoder

theorem Plain.follows {x : Decoder α} (hx : Plain x) {s s' : WordSource} (hs : s.Supplies s')
    (c : Cursor) : match x s c with
      | .ok a c₁ => x s' c = .ok a c₁
      | .error t c₁ => t.IsBusError ∨ x s' c = .error t c₁ := by
  -- on the steps of the decoder: only the next word may differ, and only where it is missing
  induction hx generalizing c with
  | pure a | markPcRelative => rfl
  | reserved cause =>
    right
    simp only [Decoder.reserved, hs.opcode, hs.address]
  | undecodable detail =>
    right
    simp only [Decoder.undecodable, hs.opcode]
  | opcode => simp only [Decoder.opcode, hs.opcode]
  | nextWord =>
    have hword := hs.extension c.consumed
    simp only [Decoder.nextWord]
    cases hnext : s.extension c.consumed with
    | ok w =>
      rw [hnext] at hword
      simp only [hword]
    | error t =>
      rw [hnext] at hword
      exact .inl hword
  | @bind _ _ x f _ _ ihx ihf =>
    have hfirst := ihx c
    simp only [Bind.bind, ReaderT.bind, EStateM.bind]
    cases hrun : x s c with
    | ok a c₁ =>
      rw [hrun] at hfirst
      simp only [hfirst]
      exact ihf a c₁
    | error t c₁ =>
      rw [hrun] at hfirst
      rcases hfirst with hbus | hfirst
      · exact .inl hbus
      · right
        simp only [hfirst]

end Decoder

theorem Definition.decode_follows (d : Definition) {s s' : WordSource} (hs : s.Supplies s')
    (c : Cursor) : match d.decode s c with
      | .ok decoded c₁ => d.decode s' c = .ok decoded c₁
      | .error t c₁ => t.IsBusError ∨ d.decode s' c = .error t c₁ := by
  have hread := (Decoder.Plain.format d.format d.mnemonic).follows hs c
  unfold decode
  cases hrun : d.format.read d.mnemonic s c with
  | ok named c₁ =>
    rw [hrun] at hread
    simp only [hread, hs.opcode, hs.address]
  | error t c₁ =>
    rw [hrun] at hread
    rcases hread with hbus | hread
    · exact .inl hbus
    · right
      simp only [hread]

variable [Bus β] [Bus γ] [StandIn β γ]

section Bus

variable {b b₁ : β} {b' : γ} {size : Size} {addr v : UInt32}

theorem fetch_of_alike (h : Alike b b') (hfetch : fetch b size addr = .ok v) :
    fetch b' size addr = .ok v :=
  fetch_eq_ok.2 (StandIn.read h (fetch_eq_ok.1 hfetch))

theorem store_of_alike (h : Alike b b') (hstore : store size addr v b = .ok () b₁) :
    ∃ b₁', store size addr v b' = .ok () b₁' ∧ Alike b₁ b₁' := by
  obtain ⟨b₁', hwrite, h'⟩ := StandIn.write h (store_eq_ok.1 hstore)
  exact ⟨b₁', store_eq_ok.2 hwrite, h'⟩

theorem rollback_of_alike {journal : List MemoryWrite} (h : Alike b b')
    (hrollback : rollback journal b = .ok () b₁) :
    ∃ b₁', rollback journal b' = .ok () b₁' ∧ Alike b₁ b₁' := by
  -- write by write, the latest first, as the journal is taken back
  induction journal generalizing b b' with
  | nil =>
    cases hrollback
    exact ⟨b', rfl, h⟩
  | cons w earlier ih =>
    cases hstore : store w.size w.addr w.old b with
    | ok u b₂ =>
      obtain ⟨b₂', hstore', h'⟩ := store_of_alike h hstore
      rw [rollback_cons hstore] at hrollback
      rw [rollback_cons hstore']
      exact ih h' hrollback
    | error t b₂ =>
      change (store w.size w.addr w.old >>= fun _ => rollback earlier) b = _ at hrollback
      simp only [bind, EStateM.bind, hstore] at hrollback
      cases hrollback

theorem WordSource.supplies_inMemory (h : Alike b b') (opcode : UInt16) (address : UInt32) :
    (inMemory b opcode address).Supplies (inMemory b' opcode address) where
  opcode := rfl
  address := rfl
  extension i := by
    simp only [inMemory]
    cases hfetch : fetch b .word (address + 2 + UInt32.ofNat (2 * i)) with
    | ok w =>
      rw [fetch_of_alike h hfetch]
      rfl
    | error t => exact isBusError_of_fetch hfetch

end Bus

namespace Exec

/-- On a bus that is alike the second computation ends as the first one does, and the buses are alike
again, unless the first bus refused an access. -/
def Follows (x : Exec β α) (y : Exec γ α) : Prop :=
  ∀ (c : Context β) (b : γ), Alike c.bus b →
    match x c with
    | .ok a c₁ => ∃ b₁, y (c.over b) = .ok a (c₁.over b₁) ∧ Alike c₁.bus b₁
    | .error fault c₁ => fault.IsBusError ∨
      ∃ b₁, y (c.over b) = .error fault (c₁.over b₁) ∧ Alike c₁.bus b₁

namespace Follows

theorem pure (a : α) : Follows (Pure.pure a : Exec β α) (Pure.pure a : Exec γ α) :=
  fun _ b hb => ⟨b, rfl, hb⟩

theorem bind {x : Exec β α} {y : Exec γ α} {f : α → Exec β ρ} {g : α → Exec γ ρ}
    (hx : Follows x y) (hf : ∀ a, Follows (f a) (g a)) : Follows (x >>= f) (y >>= g) := by
  intro c b hb
  have hfirst := hx c b hb
  simp only [Bind.bind, EStateM.bind]
  cases hrun : x c with
  | ok a c₁ =>
    rw [hrun] at hfirst
    obtain ⟨b₁, hy, hb₁⟩ := hfirst
    simp only [hy]
    exact hf a c₁ b₁ hb₁
  | error fault c₁ =>
    rw [hrun] at hfirst
    rcases hfirst with hbus | ⟨b₁, hy, hb₁⟩
    · exact .inl hbus
    · simp only [hy]
      exact .inr ⟨b₁, rfl, hb₁⟩

theorem ite {p : Prop} [Decidable p] {x x' : Exec β α} {y y' : Exec γ α} (hx : Follows x y)
    (hy : Follows x' y') : Follows (if p then x else x') (if p then y else y') := by
  split
  · exact hx
  · exact hy

theorem raise (e : Exception) : Follows (raise e : Exec β α) (raise e : Exec γ α) :=
  fun _ b hb => .inr ⟨b, rfl, hb⟩

theorem fail (t : Trap) : Follows (fail t : Exec β α) (fail t : Exec γ α) :=
  fun _ b hb => .inr ⟨b, rfl, hb⟩

theorem undecodable (detail : String) :
    Follows (undecodable detail : Exec β α) (undecodable detail : Exec γ α) :=
  fun _ b hb => .inr ⟨b, rfl, hb⟩

theorem ofLogic (x : Except LogicError α) :
    Follows (ofLogic x : Exec β α) (ofLogic x : Exec γ α) := by
  cases x with
  | ok a => exact .pure a
  | error e => exact .fail _

theorem cpu : Follows (Exec.cpu : Exec β Cpu) (Exec.cpu : Exec γ Cpu) :=
  fun _ b hb => ⟨b, rfl, hb⟩

theorem nextPc : Follows (Exec.nextPc : Exec β UInt32) (Exec.nextPc : Exec γ UInt32) :=
  fun _ b hb => ⟨b, rfl, hb⟩

theorem modifyCpu (f : Cpu → Cpu) :
    Follows (Exec.modifyCpu f : Exec β Unit) (Exec.modifyCpu f : Exec γ Unit) :=
  fun _ b hb => ⟨b, rfl, hb⟩

theorem jumpTo (target : UInt32) :
    Follows (Exec.jumpTo target : Exec β Unit) (Exec.jumpTo target : Exec γ Unit) :=
  fun _ b hb => ⟨b, rfl, hb⟩

theorem note (w : MemoryWrite) :
    Follows (Exec.note w : Exec β Unit) (Exec.note w : Exec γ Unit) :=
  fun _ b hb => ⟨b, rfl, hb⟩

theorem resolve (ea : Ea) (size : Size) :
    Follows (Exec.resolve ea size : Exec β Location) (Exec.resolve ea size : Exec γ Location) := by
  intro c b hb
  have hbase : (c.over b).pcBase = c.pcBase := rfl
  have hcpu : (c.over b).cpu = c.cpu := rfl
  simp only [Exec.resolve, hbase, hcpu]
  cases ea.locate c.cpu size c.pcBase with
  | error e => exact .inr ⟨b, rfl, hb⟩
  | ok r =>
    dsimp only
    cases r.update with
    | none => exact ⟨b, rfl, hb⟩
    | some step => exact ⟨b, rfl, hb⟩

theorem readSpecial (reg : SpecialReg) :
    Follows (readSpecial reg : Exec β UInt32) (readSpecial reg : Exec γ UInt32) := by
  refine .bind .cpu fun cpu => ?_
  cases reg with
  | sr | ccr | usp => exact .pure _
  | control code =>
    dsimp only
    split
    · exact .pure _
    · exact .raise _
  | cache _ => exact .fail _

theorem writeSpecial (reg : SpecialReg) (v : UInt32) :
    Follows (writeSpecial reg v : Exec β Unit) (writeSpecial reg v : Exec γ Unit) := by
  cases reg with
  | sr => exact .modifyCpu (·.setSr v.toUInt16)
  | ccr => exact .modifyCpu (·.setCcr v.toUInt8)
  | usp => exact .modifyCpu (·.setUsp v)
  | control code =>
    refine .bind .cpu fun cpu => ?_
    split
    · exact .modifyCpu _
    · exact .raise _
  | cache _ => exact .fail _

theorem decode (d : Definition) :
    Follows (Exec.decode d.decode : Exec β Decoded) (Exec.decode d.decode : Exec γ Decoded) := by
  intro c b hb
  have hdecode := d.decode_follows (WordSource.supplies_inMemory hb c.opcode c.pc) c.cursor
  unfold Exec.decode
  cases hrun : d.decode (.inMemory c.bus c.opcode c.pc) c.cursor with
  | ok decoded cursor =>
    rw [hrun] at hdecode
    refine ⟨b, ?_, hb⟩
    simp only [Context.over, hdecode]
  | error t cursor =>
    rw [hrun] at hdecode
    rcases hdecode with hbus | hdecode
    · exact .inl hbus
    · refine .inr ⟨b, ?_, hb⟩
      simp only [Context.over, hdecode]

theorem readMem (addr : UInt32) (size : Size) :
    Follows (readMem addr size : Exec β UInt32) (readMem addr size : Exec γ UInt32) := by
  intro c b hb
  unfold Exec.readMem
  cases hfetch : fetch c.bus size addr with
  | ok v =>
    refine ⟨b, ?_, hb⟩
    simp only [Context.over, fetch_of_alike hb hfetch]
  | error t => exact .inl (isBusError_of_fetch hfetch)

theorem storeMem (addr : UInt32) (size : Size) (v : UInt32) :
    Follows (storeMem addr size v : Exec β Unit) (storeMem addr size v : Exec γ Unit) := by
  intro c b hb
  unfold Exec.storeMem
  dsimp only
  cases hstore : store size addr v c.bus with
  | ok u bus =>
    obtain ⟨b₁, hstore', hb₁⟩ := store_of_alike hb hstore
    refine ⟨b₁, ?_, hb₁⟩
    simp only [Context.over, hstore']
  | error t bus => exact .inl (isBusError_of_store hstore)

theorem writeMem (addr : UInt32) (size : Size) (v : UInt32) :
    Follows (writeMem addr size v : Exec β Unit) (writeMem addr size v : Exec γ Unit) :=
  .bind (.readMem addr size) fun _ => .bind (.storeMem addr size v) fun _ => .note _

theorem push (v : UInt32) : Follows (push v : Exec β Unit) (push v : Exec γ Unit) :=
  .bind .cpu fun _ => .bind (.writeMem _ _ _) fun _ => .modifyCpu _

theorem pull : Follows (pull : Exec β UInt32) (pull : Exec γ UInt32) :=
  .bind .cpu fun _ => .bind (.readMem _ _) fun _ => .bind (.modifyCpu _) fun _ => .pure _

theorem read (loc : Location) (size : Size) :
    Follows (read loc size : Exec β UInt32) (read loc size : Exec γ UInt32) := by
  cases loc with
  | data r | addr r => exact .bind .cpu fun _ => .pure _
  | mem addr => exact .readMem addr size
  | imm v => exact .pure _
  | special reg => exact .readSpecial reg

theorem write (loc : Location) (size : Size) (v : UInt32) :
    Follows (write loc size v : Exec β Unit) (write loc size v : Exec γ Unit) := by
  cases loc with
  | data r =>
    exact .modifyCpu fun cpu =>
      cpu.setDataReg r ((cpu.dataReg r &&& ~~~size.mask) ||| (v &&& size.mask))
  | addr r => exact .modifyCpu (·.setAddrReg r (size.signExtend v))
  | mem addr => exact .writeMem addr size v
  | imm _ => exact .undecodable _
  | special reg => exact .writeSpecial reg v

theorem readEa (ea : Ea) (size : Size) :
    Follows (readEa ea size : Exec β UInt32) (readEa ea size : Exec γ UInt32) :=
  .bind (.resolve ea size) fun _ => .read _ _

theorem writeEa (ea : Ea) (size : Size) (v : UInt32) :
    Follows (writeEa ea size v : Exec β Unit) (writeEa ea size v : Exec γ Unit) :=
  .bind (.resolve ea size) fun _ => .write _ _ _

theorem modifyEa (ea : Ea) (size : Size) (f : UInt32 → UInt32) :
    Follows (modifyEa ea size f : Exec β UInt32) (modifyEa ea size f : Exec γ UInt32) :=
  .bind (.resolve ea size) fun _ => .bind (.read _ _) fun _ => .bind (.write _ _ _) fun _ => .pure _

theorem addressOf (ea : Ea) :
    Follows (addressOf ea : Exec β UInt32) (addressOf ea : Exec γ UInt32) := by
  refine .bind (.resolve ea .long) fun loc => ?_
  cases loc with
  | mem addr => exact .pure addr
  | _ => exact .fail _

theorem logicFlags (v : UInt32) (size : Size) :
    Follows (logicFlags v size : Exec β Unit) (logicFlags v size : Exec γ Unit) :=
  .modifyCpu _

theorem asDataReg (ea : Ea) :
    Follows (asDataReg ea : Exec β UInt8) (asDataReg ea : Exec γ UInt8) := by
  cases ea with
  | dataReg r => exact .pure r
  | _ => exact .undecodable _

theorem asAddrReg (ea : Ea) :
    Follows (asAddrReg ea : Exec β UInt8) (asAddrReg ea : Exec γ UInt8) := by
  cases ea with
  | addrReg r => exact .pure r
  | _ => exact .undecodable _

theorem asList (ea : Ea) : Follows (asList ea : Exec β UInt16) (asList ea : Exec γ UInt16) := by
  cases ea with
  | regList mask => exact .pure mask
  | _ => exact .undecodable _

theorem shiftCount (ea : Ea) :
    Follows (shiftCount ea : Exec β UInt32) (shiftCount ea : Exec γ UInt32) := by
  cases ea with
  | dataReg r => exact .bind .cpu fun _ => .pure _
  | immediate n => exact .pure n
  | _ => exact .undecodable _

theorem bitNumber (ea : Ea) :
    Follows (bitNumber ea : Exec β UInt32) (bitNumber ea : Exec γ UInt32) := by
  cases ea with
  | dataReg r => exact .bind .cpu fun _ => .pure _
  | immediate n => exact .pure n
  | _ => exact .undecodable _

theorem storeListed (members : List Nat) (addr : UInt32) :
    Follows (storeListed members addr : Exec β Unit) (storeListed members addr : Exec γ Unit) := by
  induction members generalizing addr with
  | nil => exact .pure ()
  | cons i rest ih => exact .bind .cpu fun _ => .bind (.writeMem _ _ _) fun _ => ih _

theorem loadListed (members : List Nat) (addr : UInt32) :
    Follows (loadListed members addr : Exec β Unit) (loadListed members addr : Exec γ Unit) := by
  induction members generalizing addr with
  | nil => exact .pure ()
  | cons i rest ih => exact .bind (.readMem _ _) fun _ => .bind (.modifyCpu _) fun _ => ih _

section Operation

variable (d : Decoded)

theorem arith (op : ArithOp) :
    Follows (arith op d : Exec β Unit) (arith op d : Exec γ Unit) := by
  refine .bind (.ofLogic _) fun src => .bind (.ofLogic _) fun dst => ?_
  refine .bind (.readEa _ _) fun b => .bind (.resolve _ _) fun loc => .bind (.read _ _) fun a => ?_
  refine .ite (.bind (.write _ _ _) fun _ => ?_) ?_
  all_goals
    split
    · exact .pure ()
    · exact .modifyCpu _

theorem addressArith (op : ArithOp) :
    Follows (addressArith op d : Exec β Unit) (addressArith op d : Exec γ Unit) := by
  refine .bind (.ofLogic _) fun src => .bind (.ofLogic _) fun dst => ?_
  refine .bind (.readEa _ _) fun b => .bind (.asAddrReg _) fun r => .bind .cpu fun cpu => ?_
  exact .ite (.modifyCpu _) (.modifyCpu _)

theorem extendedArith (op : ArithOp) :
    Follows (extendedArith op d : Exec β Unit) (extendedArith op d : Exec γ Unit) := by
  refine .bind (.ofLogic _) fun src => .bind (.ofLogic _) fun dst => ?_
  refine .bind (.readEa _ _) fun b => .bind (.resolve _ _) fun loc => .bind (.read _ _) fun a => ?_
  exact .bind .cpu fun _ => .bind (.write _ _ _) fun _ => .modifyCpu _

theorem negate (withExtend : Bool) :
    Follows (negate withExtend d : Exec β Unit) (negate withExtend d : Exec γ Unit) := by
  refine .bind (.ofLogic _) fun dst => .bind (.resolve _ _) fun loc => .bind (.read _ _) fun b => ?_
  exact .bind .cpu fun _ => .bind (.write _ _ _) fun _ => .modifyCpu _

theorem shift (kind : ShiftKind) :
    Follows (shift kind d : Exec β Unit) (shift kind d : Exec γ Unit) := by
  refine .bind (.ofLogic _) fun src => .bind (.shiftCount _) fun count => ?_
  refine .bind (.ofLogic _) fun dst => .bind (.resolve _ _) fun loc => .bind (.read _ _) fun v => ?_
  refine .ite (.logicFlags _ _) ?_
  exact .bind (.write _ _ _) fun _ => .bind (.logicFlags _ _) fun _ => .modifyCpu _

theorem bit (op : BitOp) : Follows (bit op d : Exec β Unit) (bit op d : Exec γ Unit) := by
  refine .bind (.ofLogic _) fun src => .bind (.bitNumber _) fun number => ?_
  refine .bind (.ofLogic _) fun dst => .bind (.resolve _ _) fun loc => .bind (.read _ _) fun v => ?_
  exact .bind (.modifyCpu _) fun _ => .ite (.write _ _ _) (.pure ())

theorem multiplyWord (signed : Bool) :
    Follows (multiplyWord signed d : Exec β Unit) (multiplyWord signed d : Exec γ Unit) := by
  refine .bind (.ofLogic _) fun src => .bind (.readEa _ _) fun v => ?_
  refine .bind (.ofLogic _) fun dst => .bind (.asDataReg _) fun r => .bind .cpu fun cpu => ?_
  exact .bind (.modifyCpu _) fun _ => .logicFlags _ _

theorem divideWord (signed : Bool) :
    Follows (divideWord signed d : Exec β Unit) (divideWord signed d : Exec γ Unit) := by
  refine .bind (.ofLogic _) fun src => .bind (.readEa _ _) fun v => ?_
  refine .bind (.ofLogic _) fun dst => .bind (.asDataReg _) fun r => .bind .cpu fun cpu => ?_
  refine .ite (.raise _) ?_
  dsimp only
  split
  · exact .bind (.modifyCpu _) fun _ => .modifyCpu _
  · exact .modifyCpu _

theorem multiplyLong :
    Follows (multiplyLong d : Exec β Unit) (multiplyLong d : Exec γ Unit) := by
  refine .bind (.ofLogic _) fun src => .bind (.readEa _ _) fun v => ?_
  refine .bind (.ofLogic _) fun dst => .bind (.asDataReg _) fun r => .bind .cpu fun cpu => ?_
  exact .bind (.modifyCpu _) fun _ => .logicFlags _ _

theorem bind_registers (dst : Ea) {f : Option UInt8 × UInt8 → Exec β α}
    {g : Option UInt8 × UInt8 → Exec γ α} (h : ∀ named, Follows (f named) (g named)) :
    Follows
      (match dst with
        | .dataReg q => Pure.pure (none, q) >>= f
        | .regPair r q => Pure.pure (some r, q) >>= f
        | _ => Exec.undecodable "divide destination" >>= f)
      (match dst with
        | .dataReg q => Pure.pure (none, q) >>= g
        | .regPair r q => Pure.pure (some r, q) >>= g
        | _ => Exec.undecodable "divide destination" >>= g) := by
  cases dst with
  | dataReg _ | regPair _ _ => exact .bind (.pure _) h
  | _ => exact .bind (.undecodable _) h

theorem divideLong : Follows (divideLong d : Exec β Unit) (divideLong d : Exec γ Unit) := by
  refine .bind (.ofLogic _) fun src => .bind (.readEa _ _) fun v => .ite (.raise _) ?_
  refine .bind (.ofLogic _) fun dst => bind_registers dst fun ⟨target, dividend⟩ => ?_
  refine .bind .cpu fun cpu => ?_
  dsimp only
  split
  · cases target with
    | none => exact .bind (.modifyCpu _) fun _ => .modifyCpu _
    | some r => exact .bind (.modifyCpu _) fun _ => .modifyCpu _
  · exact .modifyCpu _

theorem link : Follows (link d : Exec β Unit) (link d : Exec γ Unit) := by
  refine .bind (.ofLogic _) fun src => .bind (.ofLogic _) fun dst => ?_
  split
  · refine .bind .cpu fun cpu => .bind (.push _) fun _ => .bind .cpu fun cpu => ?_
    exact .bind (.modifyCpu _) fun _ => .modifyCpu _
  · exact .undecodable _

theorem unlink : Follows (unlink d : Exec β Unit) (unlink d : Exec γ Unit) := by
  refine .bind (.ofLogic _) fun dst => .bind (.asAddrReg _) fun r => ?_
  exact .bind (.modifyCpu _) fun _ => .bind .pull fun v => .modifyCpu _

theorem branch (cond : UInt16) :
    Follows (branch cond d : Exec β Unit) (branch cond d : Exec γ Unit) := by
  refine .bind (.ofLogic _) fun src => ?_
  split
  · refine .ite (.bind .nextPc fun _ => .bind (.push _) fun _ => .jumpTo _) ?_
    exact .bind .cpu fun cpu => .ite (.jumpTo _) (.pure ())
  · exact .undecodable _

end Operation

theorem returnFromException :
    Follows (returnFromException : Exec β Unit) (returnFromException : Exec γ Unit) := by
  refine .bind .pull fun frame => .bind .pull fun pc => .ite (.raise _) ?_
  exact .bind (.modifyCpu _) fun _ => .jumpTo _

/-- Every operation reaches memory through the bus alone. -/
theorem perform (op : Operation) (d : Decoded) :
    Follows (perform op d : Exec β Unit) (perform op d : Exec γ Unit) := by
  cases op with
  | arith op => exact .arith d op
  | addressArith op => exact .addressArith d op
  | extendedArith op => exact .extendedArith d op
  | negate withExtend => exact .negate d withExtend
  | clear => exact .bind (.ofLogic _) fun _ => .bind (.writeEa _ _ _) fun _ => .logicFlags _ _
  | test => exact .bind (.ofLogic _) fun _ => .bind (.readEa _ _) fun _ => .logicFlags _ _
  | extend narrow =>
    refine .bind (.ofLogic _) fun dst => .bind (.resolve _ _) fun loc => .bind (.read _ _) fun v => ?_
    exact .bind (.write _ _ _) fun _ => .logicFlags _ _
  | logic op =>
    refine .bind (.ofLogic _) fun src => .bind (.readEa _ _) fun b => ?_
    exact .bind (.ofLogic _) fun dst => .bind (.modifyEa _ _ _) fun _ => .logicFlags _ _
  | complement | swapHalves =>
    exact .bind (.ofLogic _) fun dst => .bind (.modifyEa _ _ _) fun _ => .logicFlags _ _
  | shift kind => exact .shift d kind
  | bit op => exact .bit d op
  | multiplyWord signed => exact .multiplyWord d signed
  | divideWord signed => exact .divideWord d signed
  | multiplyLong => exact .multiplyLong d
  | divideLong => exact .divideLong d
  | move =>
    refine .bind (.ofLogic _) fun src => .bind (.readEa _ _) fun v => ?_
    exact .bind (.ofLogic _) fun dst => .bind (.writeEa _ _ _) fun _ => .logicFlags _ _
  | transfer =>
    refine .bind (.ofLogic _) fun src => .bind (.readEa _ _) fun v => ?_
    exact .bind (.ofLogic _) fun dst => .writeEa _ _ _
  | moveExtend signed =>
    refine .bind (.ofLogic _) fun src => .bind (.readEa _ _) fun raw => ?_
    exact .bind (.ofLogic _) fun dst => .bind (.writeEa _ _ _) fun _ => .logicFlags _ _
  | storeList =>
    refine .bind (.ofLogic _) fun src => .bind (.asList _) fun mask => ?_
    exact .bind (.ofLogic _) fun dst => .bind (.addressOf _) fun addr => .storeListed _ _
  | loadList =>
    refine .bind (.ofLogic _) fun dst => .bind (.asList _) fun mask => ?_
    exact .bind (.ofLogic _) fun src => .bind (.addressOf _) fun addr => .loadListed _ _
  | loadAddress =>
    refine .bind (.ofLogic _) fun src => .bind (.addressOf _) fun addr => ?_
    exact .bind (.ofLogic _) fun dst => .writeEa _ _ _
  | pushAddress => exact .bind (.ofLogic _) fun src => .bind (.addressOf _) fun addr => .push _
  | link => exact .link d
  | unlink => exact .unlink d
  | branch cond => exact .branch d cond
  | setCondition => exact .bind .cpu fun cpu => .bind (.ofLogic _) fun dst => .writeEa _ _ _
  | nothing => exact .pure ()
  | jump => exact .bind (.ofLogic _) fun src => .bind (.addressOf _) fun addr => .jumpTo _
  | call =>
    refine .bind (.ofLogic _) fun src => .bind (.addressOf _) fun target => ?_
    exact .bind .nextPc fun _ => .bind (.push _) fun _ => .jumpTo _
  | returnFromCall => exact .bind .pull fun pc => .jumpTo _
  | illegal | trap => exact .raise _
  | halt => exact .modifyCpu ({ · with state := .halted })
  | returnFromException => exact .returnFromException
  | stop => exact .bind (.ofLogic _) fun src => .bind (.readEa _ _) fun sr => .modifyCpu _
  | unsimulated => exact .fail _

theorem execute (d : Definition) :
    Follows (execute d : Exec β Unit) (execute d : Exec γ Unit) :=
  .bind (.decode d) fun decoded => .perform d.operation decoded

end Follows

end Exec

end ColdFire
