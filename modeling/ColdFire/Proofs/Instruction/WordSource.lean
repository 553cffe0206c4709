import ColdFire.Instruction.WordSource

namespace ColdFire

namespace WordSource

/-- Some words stand one after another from an extension word on. -/
def Holds (s : WordSource) (i : Nat) : List UInt16 → Prop
  | [] => True
  | w :: rest => s.extension i = .ok w ∧ s.Holds (i + 1) rest

variable {s : WordSource} {i : Nat} {vs ws : List UInt16}

@[simp] theorem holds_nil : s.Holds i [] := trivial

@[simp] theorem holds_cons {w : UInt16} :
    s.Holds i (w :: ws) ↔ s.extension i = .ok w ∧ s.Holds (i + 1) ws := Iff.rfl

theorem holds_append : s.Holds i (vs ++ ws) ↔ s.Holds i vs ∧ s.Holds (i + vs.length) ws := by
  induction vs generalizing i with
  | nil => simp
  | cons v vs ih =>
    have hlen : i + 1 + vs.length = i + (v :: vs).length := by rw [List.length_cons]; omega
    rw [List.cons_append, holds_cons, holds_cons, ih, hlen, and_assoc]

theorem extension_ofWords_eq_ok {opcode address w : _} {exts : List UInt16} :
    (ofWords opcode exts address).extension i = .ok w ↔ exts[i]? = some w := by
  simp only [ofWords]
  split
  · rename_i v hv
    rw [hv]
    simp
  · rename_i hv
    rw [hv]
    simp

theorem holds_ofWords {opcode : UInt16} {address : UInt32} {exts : List UInt16} :
    (ofWords opcode exts address).Holds i ws ↔ ws <+: exts.drop i := by
  induction ws generalizing i with
  | nil => simp
  | cons w ws ih =>
    rw [holds_cons, extension_ofWords_eq_ok, ih]
    by_cases hi : i < exts.length
    · rw [List.drop_eq_getElem_cons hi, List.cons_prefix_cons, List.getElem?_eq_getElem hi,
        Option.some.injEq, eq_comm]
    · have hnone : exts[i]? = none := List.getElem?_eq_none (by omega)
      have hdrop : exts.drop i = [] := List.drop_eq_nil_of_le (by omega)
      simp [hnone, hdrop]

end WordSource

namespace Decoder

variable {α β : Type} {s : WordSource} {c c' : Cursor}

@[simp] theorem bind_eq_ok {x : Decoder α} {f : α → Decoder β} {b : β} :
    (x >>= f) s c = .ok b c' ↔ ∃ a c₁, x s c = .ok a c₁ ∧ f a s c₁ = .ok b c' := by
  simp only [bind, ReaderT.bind, EStateM.bind]
  cases x s c with
  | ok a c₁ => simp [and_assoc]
  | error e c₁ => simp

@[simp] theorem pure_eq_ok {a b : α} :
    (pure a : Decoder α) s c = .ok b c' ↔ a = b ∧ c = c' := by
  change EStateM.Result.ok a c = .ok b c' ↔ _
  simp

@[simp] theorem opcode_eq_ok {op : UInt16} :
    Decoder.opcode s c = .ok op c' ↔ s.opcode = op ∧ c = c' := by
  simp [opcode]

@[simp] theorem opcode_bind {f : UInt16 → Decoder α} : (opcode >>= f) s c = f s.opcode s c := rfl

theorem bind_pure_eq_ok {x : Decoder α} {f : α → β} {b : β} :
    (x >>= fun a => pure (f a)) s c = .ok b c' ↔ ∃ a, x s c = .ok a c' ∧ f a = b := by
  simp only [bind_eq_ok, pure_eq_ok]
  constructor
  · rintro ⟨a, _, ha, hb, rfl⟩
    exact ⟨a, ha, hb⟩
  · rintro ⟨a, ha, hb⟩
    exact ⟨a, c', ha, hb, rfl⟩

@[simp] theorem nextWord_eq_ok {w : UInt16} :
    nextWord s c = .ok w c' ↔
      s.extension c.consumed = .ok w ∧ c' = ⟨c.consumed + 1, c.pcMark⟩ := by
  unfold nextWord
  cases s.extension c.consumed with
  | ok v => simp [eq_comm]
  | error t => simp

@[simp] theorem markPcRelative_eq_ok {u : Unit} :
    markPcRelative s c = .ok u c' ↔ c' = ⟨c.consumed, c.consumed⟩ := by
  simp [markPcRelative, eq_comm]

@[simp] theorem reserved_ne_ok {cause : ReservedCause} {a : α} :
    (reserved cause : Decoder α) s c ≠ .ok a c' := by
  simp [reserved]

@[simp] theorem undecodable_ne_ok {detail : String} {a : α} :
    (undecodable detail : Decoder α) s c ≠ .ok a c' := by
  simp [undecodable]

end Decoder

end ColdFire
