import ColdFire.Assembly.Program
import ColdFire.Proofs.Assembly.Lowering
import ColdFire.Proofs.Instruction.Planned
import ColdFire.Proofs.Memory.Bytes

namespace ColdFire

theorem except_bind_eq_error {ε α β : Type} {x : Except ε α} {f : α → Except ε β} {t : ε} :
    x >>= f = .error t ↔ x = .error t ∨ ∃ a, x = .ok a ∧ f a = .error t := by
  cases x with
  | ok a => simp [bind, Except.bind]
  | error e => simp [bind, Except.bind]

namespace Assembly

/-- Whatever fails, it is not that an instruction has got another length. -/
def KeepsSizes {α : Type} (x : Except AssemblyError α) : Prop :=
  ∀ line name before after, x ≠ .error (.badSyntax line (.sizeChanged name before after))

namespace KeepsSizes

variable {α β : Type} {x : Except AssemblyError α} {f : α → Except AssemblyError β} {s : Scope}

theorem ok (a : α) : KeepsSizes (.ok a) := nofun

theorem pure (a : α) : KeepsSizes (Pure.pure a) := nofun

theorem bind (hx : KeepsSizes x) (hf : ∀ a, x = .ok a → KeepsSizes (f a)) :
    KeepsSizes (x >>= f) := by
  intro line name before after h
  rcases except_bind_eq_error.1 h with h | ⟨a, ha, h⟩
  · exact hx _ _ _ _ h
  · exact hf a ha _ _ _ _ h

theorem ite {p : Prop} [Decidable p] {y : Except AssemblyError α} (hx : KeepsSizes x)
    (hy : KeepsSizes y) : KeepsSizes (if p then x else y) := by
  split
  · exact hx
  · exact hy

theorem mapM {γ : Type} {g : γ → Except AssemblyError α} (hg : ∀ c, KeepsSizes (g c)) (l : List γ) :
    KeepsSizes (l.mapM g) := by
  induction l with
  | nil => exact .pure _
  | cons c rest ih =>
    rw [List.mapM_cons]
    exact .bind (hg c) fun _ _ => .bind ih fun _ _ => .pure _

theorem encodeErrorAt (n : Nat) (r : Except EncodeError α) :
    KeepsSizes (Assembler.encodeErrorAt n r) := by
  cases r with
  | ok a => exact .ok a
  | error e => exact nofun

theorem eval (e : Expression) : KeepsSizes (s.eval e) := by
  unfold Scope.eval
  split
  · exact .ok _
  · split
    · exact .ok _
    · exact .ite nofun (.ok _)

theorem evalWithin (e : Expression) (low high : Int64) (what : String) :
    KeepsSizes (s.evalWithin e low high what) :=
  .bind (.eval e) fun _ _ => .ite (.pure _) nofun

theorem lower (a : Assembler) (mnemonic : String) (pc : UInt32) (operand : Operand) :
    KeepsSizes (a.lower s mnemonic pc operand) := by
  cases operand with
  | disp e reg | index e reg ix => exact .bind (.evalWithin _ _ _ _) fun _ _ => .pure _
  | absShort e | immediate e => exact .bind (.eval e) fun _ _ => .ite (.pure _) nofun
  | absLong e => exact .bind (.eval e) fun _ _ => .pure _
  | bare e =>
    exact .ite (.bind (.eval e) fun _ _ => .pure _)
      (.bind (.eval e) fun _ _ => .ite (.pure _) (.pure _))
  | pcDisp e | pcIndex e ix =>
    refine .bind ?_ fun _ _ => .ite (.pure _) nofun
    exact .bind (.eval e) fun _ _ => .pure _
  | _ => exact .ok _

theorem request (a : Assembler) (mnemonic : String) (size : Option Size) (operands : List Operand)
    (pc : UInt32) : KeepsSizes (a.request s mnemonic size operands pc) := by
  unfold Assembler.request
  refine .ite nofun (.bind (.mapM (lower a mnemonic pc) operands) ?_)
  intro eas _
  split
  · exact .pure _
  · exact nofun

end KeepsSizes

/-- Some bytes have been written at the location counter, which stands behind them now. -/
structure Emission.Writes (e e' : Emission) (bytes : List UInt8) : Prop where
  image : e'.image = e.image.writeBytes e.pc bytes
  pc : e'.pc = e.pc + UInt32.ofNat bytes.length

end Assembly

namespace Image

theorem length_wordBytes (words : List UInt16) : (wordBytes words).length = 2 * words.length := by
  induction words with
  | nil => rfl
  | cons w rest ih =>
    rw [wordBytes, List.flatMap_cons, List.length_append, List.length_cons]
    change 2 + (wordBytes rest).length = _
    rw [ih]
    omega

end Image

namespace Assembler

open Assembly

theorem encodeErrorAt_eq_ok {α : Type} {n : Nat} {r : Except EncodeError α} {v : α} :
    encodeErrorAt n r = .ok v ↔ r = .ok v := by
  cases r with
  | ok a => simp [encodeErrorAt, Except.mapError]
  | error e => exact iff_of_false nofun nofun

section Data

variable {s : Scope} {size : Size} {e e' : Emission} {values : List Expression}

theorem keepsSizes_emitData : KeepsSizes (emitData s size e values) := by
  induction values generalizing e with
  | nil => exact .ok _
  | cons value rest ih =>
    rw [emitData]
    exact .bind (.evalWithin _ _ _ _) fun _ _ => ih

theorem writes_emitData (h : emitData s size e values = .ok e') :
    ∃ bytes, e.Writes e' bytes ∧ bytes.length = size.bytes * values.length := by
  induction values generalizing e with
  | nil =>
    cases h
    exact ⟨[], ⟨rfl, (UInt32.add_zero _).symm⟩, rfl⟩
  | cons value rest ih =>
    rw [emitData, except_bind_eq_ok] at h
    obtain ⟨v, -, h⟩ := h
    obtain ⟨bytes, ⟨himage, hpc⟩, hlength⟩ := ih h
    have hfirst := Bus.length_bytes size v.long
    refine ⟨Bus.bytes size v.long ++ bytes, ⟨?_, ?_⟩, ?_⟩
    · rw [Image.writeBytes_append, hfirst]
      exact himage
    · rw [hpc, List.length_append, hfirst, UInt32.ofNat_add, UInt32.add_assoc]
    · rw [List.length_append, hfirst, hlength, List.length_cons, Nat.mul_succ, Nat.add_comm]

end Data

variable {tier : Tier} {symbols final : Symbols} {pc next : UInt32} {n length : Nat}
  {size : Option Size} {mnemonic : String} {operands : List Operand}

theorem arrange_size {a : Assembler} {eas : List Ea} {ops : Operands}
    (h : a.arrange mnemonic size eas = .ok ops) : ops.size = size := by
  unfold arrange at h
  split at h
  · obtain ⟨rfl | rfl, -⟩ := arrangeOne_eq_ok h
    · rfl
    · rfl
  · cases h
    rfl

theorem plannedSize_ne_none {a : Assembler} {ops : Operands} {known : Bool}
    (hbranch : a.registry.isBranch mnemonic = true) (hops : ops.size = size) :
    a.plannedSize mnemonic size ops known ≠ none := by
  unfold plannedSize
  rw [hbranch, Bool.and_true]
  split
  · split
    · split
      · cases a.registry.branchSize? mnemonic _ a.tier with
        | none => simp
        | some s => simp
      · simp
    · simp
  · rename_i hsome
    rw [hops]
    simpa using hsome

theorem length_of_passes {ops ops' : Operands} {words : List UInt16}
    (hshape : ops.shape = ops'.shape)
    (hbranch : Registry.full.isBranch mnemonic = true → ops.size ≠ none)
    (hcalc : Registry.full.calcSize mnemonic ops tier = .ok length)
    (hencode : Registry.full.encode mnemonic ops' tier = .ok words) :
    2 * words.length = length := by
  rw [Registry.calcSize, except_bind_eq_ok] at hcalc
  rw [Registry.encode, except_bind_eq_ok] at hencode
  obtain ⟨⟨x, enc⟩, hchoose, hlength⟩ := hcalc
  obtain ⟨⟨y, enc'⟩, hchoose', hwords⟩ := hencode
  obtain rfl := except_pure_eq_ok.1 hlength
  rw [← Encoding.length_words hwords]
  exact (Registry.length_of_choose hshape hbranch hchoose hchoose').symm

section Instruction

variable {a : Assembler} {s : Scope} {p : Placement} {e e' : Emission}

/-- What the second pass does about an instruction: it encodes the request with the planned size, and
writes the words if they have the planned length. -/
theorem emitStatement_instruction : a.emitStatement s p e (.instruction mnemonic size operands) =
      (a.request s mnemonic size operands e.pc >>= fun r =>
        encodeErrorAt s.line (a.registry.encode mnemonic { r.1 with size := p.size } a.tier) >>=
          fun words =>
            if 2 * words.length ≠ p.length then
              .error (s.flawed (.sizeChanged mnemonic p.length (2 * words.length)))
            else .ok { e.mark with
              image := e.image.writeWords e.pc words
              pc := e.pc + UInt32.ofNat (2 * words.length) }) :=
  rfl

theorem of_emit_instruction
    (h : a.emitStatement s p e (.instruction mnemonic size operands) = .ok e') :
    ∃ ops known words, a.request s mnemonic size operands e.pc = .ok (ops, known) ∧
      a.registry.encode mnemonic { ops with size := p.size } a.tier = .ok words ∧
      2 * words.length = p.length ∧ e.Writes e' (Image.wordBytes words) := by
  rw [emitStatement_instruction, except_bind_eq_ok] at h
  obtain ⟨⟨ops, known⟩, hrequest, h⟩ := h
  rw [except_bind_eq_ok] at h
  obtain ⟨words, hwords, h⟩ := h
  rw [encodeErrorAt_eq_ok] at hwords
  split at h
  · cases h
  · rename_i hlength
    cases h
    refine ⟨ops, known, words, hrequest, hwords, not_not.mp hlength, rfl, ?_⟩
    rw [Image.length_wordBytes]

end Instruction

theorem emitStatement_of_place {st : Statement} {p : Placement} {e : Emission}
    (hwithin : symbols.Within final)
    (hplace : (Assembler.mk .full tier).place ⟨symbols, false, n⟩ p.address st =
      .ok (p.size, p.length, next)) (hpc : e.pc = p.address) :
    KeepsSizes ((Assembler.mk .full tier).emitStatement ⟨final, true, n⟩ p e st) ∧
      ∀ e', (Assembler.mk .full tier).emitStatement ⟨final, true, n⟩ p e st = .ok e' →
        e'.pc = next := by
  cases st with
  | org value =>
    simp only [place, except_bind_eq_ok, except_pure_eq_ok, Scope.evalWithin_eq_ok] at hplace
    obtain ⟨v, ⟨hv, -⟩, hnext⟩ := hplace
    refine ⟨.bind (.eval value) fun _ _ => .pure _, ?_⟩
    intro e' h
    simp only [emitStatement, except_bind_eq_ok, except_pure_eq_ok] at h
    obtain ⟨w, hw, rfl⟩ := h
    have hst : Scope.Settles ⟨symbols, true, n⟩ ⟨final, true, n⟩ := ⟨rfl, rfl, hwithin⟩
    rw [← hst.eval hv hw (Scope.known_of_strict rfl hv)]
    exact congrArg (·.2.2) hnext
  | even =>
    refine ⟨.ok _, ?_⟩
    rintro e' ⟨⟩
    have hnext : evenAddress p.address = next := congrArg (·.2.2) (Except.ok.inj hplace)
    rw [← hnext, hpc]
  | data size values =>
    refine ⟨keepsSizes_emitData, ?_⟩
    intro e' h
    obtain ⟨bytes, hwrites, hlength⟩ := writes_emitData h
    have hnext : p.address + UInt32.ofNat (size.bytes * values.length) = next :=
      congrArg (·.2.2) (Except.ok.inj hplace)
    rw [hwrites.pc, hlength, ← hnext, ← hpc]
    rfl
  | instruction mnemonic size operands =>
    simp only [place, except_bind_eq_ok, except_pure_eq_ok, encodeErrorAt_eq_ok] at hplace
    obtain ⟨⟨ops, known⟩, hrequest, length, hcalc, hsame⟩ := hplace
    simp only [Prod.mk.injEq] at hsame
    obtain ⟨hsize, rfl, hnext⟩ := hsame
    have hst : Scope.Settles ⟨symbols, false, n⟩ ⟨final, true, n⟩ := ⟨rfl, rfl, hwithin⟩
    -- another definition may be chosen now than at first, but the two requests agree in their shape
    have hlength {ops' : Operands} {known' : Bool} {words : List UInt16}
        (hrequest' : (Assembler.mk .full tier).request ⟨final, true, n⟩ mnemonic size operands
          p.address = .ok (ops', known'))
        (hwords : Registry.full.encode mnemonic { ops' with size := p.size } tier = .ok words) :
        2 * words.length = p.length := by
      obtain ⟨hshape, -⟩ := request_settles hst hrequest hrequest'
      obtain ⟨-, hsrcs, hdsts⟩ := Operands.shape_eq_iff.1 hshape
      obtain ⟨-, _, -, harrange, -⟩ := request_eq_ok.1 hrequest
      have hsame : Operands.shape { ops with size := p.size } =
          Operands.shape { ops' with size := p.size } :=
        Operands.shape_eq_iff.2 ⟨rfl, hsrcs, hdsts⟩
      refine length_of_passes hsame ?_ (hsize ▸ hcalc) hwords
      intro hbranch
      exact hsize ▸ plannedSize_ne_none hbranch (arrange_size harrange)
    constructor
    · rw [emitStatement_instruction, hpc]
      refine .bind (.request _ _ _ _ _) fun r hr => .bind (.encodeErrorAt _ _) fun words hwords => ?_
      rw [encodeErrorAt_eq_ok] at hwords
      rw [if_neg (not_not.mpr (hlength hr hwords))]
      exact .ok _
    · intro e' h
      obtain ⟨ops', known', words, hrequest', hwords, hlen, hwrites⟩ := of_emit_instruction h
      rw [hwrites.pc, Image.length_wordBytes, hlen, hpc, ← hnext]

end Assembler

end ColdFire
