import ColdFire.Proofs.Execution.Ending
import ColdFire.Proofs.Instruction.PcMark

namespace ColdFire

variable {β : Type} [Bus β]

namespace Catalogue

theorem operation_of_anything : ∀ d ∈ all, d.dstDemand = .anything →
    d.operation = .divideLong ∨ d.operation = .transfer :=
  List.all_iff_forall_prop.mp rfl

theorem format_of_return : ∀ d ∈ all,
    d.operation = .returnFromCall ∨ d.operation = .returnFromException → d.format = .bare :=
  List.all_iff_forall_prop.mp rfl

end Catalogue

namespace Decoded

theorem locate_of_staticTarget? {d : Decoded} {ea : Ea} {target : UInt32}
    (h : d.staticTarget? = some target) (hsrc : d.src = some ea) (hne : ea.modes ≠ .none) (cpu : Cpu)
    (size : Size) : ea.locate cpu size (d.address + 2) = .ok ⟨.mem target, none⟩ := by
  rw [staticTarget?, hsrc] at h
  cases ea with
  | relative off => exact absurd rfl hne
  | absShort v | absLong v | pcDisp v =>
    cases h
    rfl
  | _ => cases h

end Decoded

namespace Registry

variable {s : WordSource} {tier : Tier} {x : Entry} {decoded : Decoded} {c : Cursor}

/-- A decoded instruction knows its address, and the operand that counts from the program counter has
its word right behind the opcode word. -/
theorem place_of_decode (h : full.decode tier s .start = .ok (some decoded) c) :
    decoded.address = s.address ∧ c.pcMark = 0 := by
  obtain ⟨x, hlookup, hdecode⟩ := of_decode_some h
  obtain ⟨hread, haddress, -⟩ := Definition.read_of_decode hdecode
  obtain ⟨hd, hfits, haccepts⟩ := of_lookup_full hlookup
  exact ⟨haddress, Definition.mark_of_read hd hfits haccepts hread⟩

variable (hlookup : full.lookup s.opcode tier = some x)
  (hdecode : x.1.decode s .start = .ok decoded c)

include hlookup hdecode

theorem decode_eq : full.decode tier s .start = .ok (some decoded) c := by
  rw [decode_of_lookup hlookup, hdecode]

theorem dst_ne_relative (off : Int32) : decoded.dst ≠ some (.relative off) := by
  intro hdst
  have hmeets := dst_meets_of_decode hlookup hdecode
  rw [hdst] at hmeets
  cases hdemand : x.1.dstDemand with
  | anything =>
    have hsuits := (takes_of_decode hlookup hdecode).suits
    rcases Catalogue.operation_of_anything x.1 (of_lookup_full hlookup).1 hdemand with hop | hop
    · rw [hop] at hsuits
      obtain ⟨q, hq⟩ | ⟨r, q, hq⟩ := hsuits
      · cases hdst.symm.trans hq
      · cases hdst.symm.trans hq
    · rw [hop] at hsuits
      obtain ⟨_, dst, -, hq, -, hregister⟩ := hsuits
      cases hdst.symm.trans hq
      exact hregister
  | modes allowed =>
    rw [hdemand] at hmeets
    obtain ⟨_, ⟨⟩, -, hne⟩ := hmeets
    exact hne rfl
  | absent | special =>
    rw [hdemand] at hmeets
    cases hmeets
  | list =>
    rw [hdemand] at hmeets
    obtain ⟨_, ⟨⟩⟩ := hmeets

end Registry

namespace Exec

/-- To execute a definition from `c` on is to perform a decoded instruction. Its operands are counted
from `base`, which stays to the end, and where it tells its target it jumps nowhere else. -/
structure Counts (definition : Definition) (d : Decoded) (c : Context β) (base : UInt32) : Prop where
  performs : ∃ c₁, execute definition c = perform definition.operation d c₁ ∧ c₁.pcBase = base
  ends : match execute definition c with
    | .ok _ c' | .error _ c' => c'.pcBase = base
  jumps : ∀ target c', d.staticTarget? = some target → execute definition c = .ok () c' →
    c'.jump = none ∨ c'.jump = some target

variable {d : Decoded} {c c' : Context β} {target : UInt32}

section

omit [Bus β]

theorem bind_eq_ok {α γ : Type} {x : Exec β α} {f : α → Exec β γ} {b : γ} :
    (x >>= f) c = .ok b c' ↔ ∃ a c₁, x c = .ok a c₁ ∧ f a c₁ = .ok b c' := by
  simp only [bind, EStateM.bind]
  cases x c with
  | ok a c₁ => simp [and_assoc]
  | error e c₁ => simp

theorem bind_of_ok {α γ : Type} {x : Exec β α} {f : α → Exec β γ} {a : α} (h : x c = .ok a c') :
    (x >>= f) c = f a c' := by
  simp only [bind, EStateM.bind, h]

theorem bind_of_error {α γ : Type} {x : Exec β α} {f : α → Exec β γ} {fault : Fault}
    (h : x c = .error fault c') : (x >>= f) c = .error fault c' := by
  simp only [bind, EStateM.bind, h]

theorem bind_cpu {γ : Type} {f : Cpu → Exec β γ} : (Exec.cpu >>= f) c = f c.cpu c := rfl

theorem bind_source {γ : Type} {src : Ea} {f : Ea → Exec β γ} (hsrc : d.src = some src) :
    (ofLogic d.source >>= f) = f src := by
  rw [Decoded.source, hsrc]
  rfl

theorem bind_destination {γ : Type} {dst : Ea} {f : Ea → Exec β γ} (hdst : d.dst = some dst) :
    (ofLogic d.destination >>= f) = f dst := by
  rw [Decoded.destination, hdst]
  rfl

theorem jump_of_jumpTo {u : Unit} (h : jumpTo target c = .ok u c') : c'.jump = some target := by
  cases h
  rfl

theorem addressOf_of_locate {ea : Ea} {addr : UInt32}
    (hlocate : ea.locate c.cpu .long c.pcBase = .ok ⟨.mem target, none⟩)
    (h : addressOf ea c = .ok addr c') : addr = target ∧ c' = c := by
  simp only [addressOf, bind, EStateM.bind, resolve, hlocate] at h
  cases h
  exact ⟨rfl, rfl⟩

end

theorem jump_of_branch {cond : UInt16} {off : Int32} (hsrc : d.src = some (.relative off))
    (hjump : c.jump = none) (h : branch cond d c = .ok () c') :
    c'.jump = none ∨ c'.jump = some (d.address + 2 + off.toUInt32) := by
  rw [branch, bind_source hsrc] at h
  dsimp only at h
  split at h
  · simp only [bind_eq_ok] at h
    obtain ⟨_, _, -, _, _, -, h⟩ := h
    exact .inr (jump_of_jumpTo h)
  · rw [bind_eq_ok] at h
    obtain ⟨cpu, _, hcpu, h⟩ := h
    cases hcpu
    split at h
    · exact .inr (jump_of_jumpTo h)
    · cases h
      exact .inl hjump

theorem jump_of_operand {op : Operation} {ea : Ea} (hop : op = .jump ∨ op = .call)
    (hsrc : d.src = some ea) (hne : ea.modes ≠ .none) (htarget : d.staticTarget? = some target)
    (hbase : c.pcBase = d.address + 2) (h : perform op d c = .ok () c') :
    c'.jump = some target := by
  have hlocate := Decoded.locate_of_staticTarget? htarget hsrc hne c.cpu .long
  rw [← hbase] at hlocate
  rcases hop with rfl | rfl
  all_goals
    rw [perform, bind_source hsrc] at h
    simp only [bind_eq_ok] at h
    obtain ⟨addr, _, haddr, h⟩ := h
    obtain ⟨rfl, rfl⟩ := addressOf_of_locate hlocate haddr
  · exact jump_of_jumpTo h
  · obtain ⟨_, _, -, _, _, -, h⟩ := h
    exact jump_of_jumpTo h

variable {x : Entry} {tier : Tier} {cpu : Cpu} {bus : β} {pc : UInt32} {opcode : UInt16}
  {decoded : Decoded} {cursor : Cursor}
  (hlookup : Registry.full.lookup opcode tier = some x)
  (hdecode : x.1.decode (.inMemory bus opcode pc) .start = .ok decoded cursor)

include hlookup hdecode

theorem pcBase_ready (cpu : Cpu) : (Context.ready cpu bus pc opcode cursor).pcBase = pc + 2 := by
  change pc + 2 + UInt32.ofNat (2 * cursor.pcMark) = pc + 2
  have hdecode := Registry.decode_eq (s := .inMemory bus opcode pc) hlookup hdecode
  rw [(Registry.place_of_decode hdecode).2]
  exact UInt32.add_zero _

/-- However an instruction ends, it has counted from the word behind its opcode word. -/
theorem pcBase_of_execute :
    match execute x.1 (.start cpu bus pc opcode) with
    | .ok _ c' | .error _ c' => c'.pcBase = pc + 2 := by
  have hbase := pcBase_ready hlookup hdecode cpu
  have hsame {p : Permit} {c' : Context β}
      (h : (Context.ready cpu bus pc opcode cursor).Changes p c') : c'.pcBase = pc + 2 := by
    obtain ⟨hpc, -, hcursor⟩ := h.place
    rw [← hbase, Context.pcBase, hpc, hcursor]
    rfl
  have hwithin := within_of_decode cpu hlookup hdecode
  rw [execute_of_decode hdecode]
  cases hrun : perform x.1.operation decoded (Context.ready cpu bus pc opcode cursor) with
  | ok _ c' => exact hsame (hwithin.of_ok hrun)
  | error _ c' => exact hsame (hwithin.of_error hrun).1

/-- An instruction that tells its target jumps nowhere else. -/
theorem jump_of_execute (htarget : decoded.staticTarget? = some target)
    (h : execute x.1 (.start cpu bus pc opcode) = .ok () c') :
    c'.jump = none ∨ c'.jump = some target := by
  have hbase := pcBase_ready hlookup hdecode cpu
  have htakes := Registry.takes_of_decode (s := .inMemory bus opcode pc) hlookup hdecode
  obtain ⟨hread, haddress, -⟩ := Definition.read_of_decode hdecode
  have hbase : (Context.ready cpu bus pc opcode cursor).pcBase = decoded.address + 2 :=
    hbase.trans (congrArg (· + 2) haddress.symm)
  rw [execute_of_decode hdecode] at h
  have hchanges := (within_of_decode cpu hlookup hdecode).of_ok h
  cases hop : x.1.operation with
  | branch cond =>
    rw [hop] at h htakes
    obtain ⟨off, hsrc, -⟩ := htakes.suits
    rw [Decoded.staticTarget?, hsrc] at htarget
    cases htarget
    exact jump_of_branch hsrc rfl h
  | jump =>
    rw [hop] at h htakes
    obtain ⟨ea, hsrc, -, hne⟩ := htakes.src
    exact .inr (jump_of_operand (.inl rfl) hsrc hne htarget hbase h)
  | call =>
    rw [hop] at h htakes
    obtain ⟨ea, hsrc, -, hne⟩ := htakes.src
    exact .inr (jump_of_operand (.inr rfl) hsrc hne htarget hbase h)
  | returnFromCall | returnFromException =>
    -- these do jump, and have no operand that would tell a target
    have hformat := Catalogue.format_of_return x.1 (Registry.of_lookup_full hlookup).1
      (by simp [hop])
    rw [hformat] at hread
    simp only [Format.read, Decoder.opcode_bind, Decoder.pure_eq_ok, Prod.mk.injEq] at hread
    obtain ⟨⟨-, hops⟩, -⟩ := hread
    have hsrc : decoded.src = none := congrArg Operands.src hops.symm
    rw [Decoded.staticTarget?, hsrc] at htarget
    cases htarget
  | _ =>
    refine .inl (hchanges.jump ?_)
    rw [hop]
    exact id

theorem counts_of_decode : Counts x.1 decoded (.start cpu bus pc opcode) (pc + 2) where
  performs := ⟨_, execute_of_decode hdecode, pcBase_ready hlookup hdecode cpu⟩
  ends := pcBase_of_execute hlookup hdecode
  jumps := fun _ _ => jump_of_execute hlookup hdecode

end Exec

end ColdFire
