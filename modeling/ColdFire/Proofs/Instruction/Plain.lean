import ColdFire.Instruction.Decode
import ColdFire.Proofs.Instruction.WordSource

namespace ColdFire

namespace Decoder

/-- A decoder that takes single steps, one after another. What holds of the steps, and of two decoders
one behind the other, holds of every format. -/
inductive Plain : {α : Type} → Decoder α → Prop
  | pure {α : Type} (a : α) : Plain (Pure.pure a : Decoder α)
  | reserved {α : Type} (cause : ReservedCause) : Plain (reserved cause : Decoder α)
  | undecodable {α : Type} (detail : String) : Plain (undecodable detail : Decoder α)
  | opcode : Plain opcode
  | markPcRelative : Plain markPcRelative
  | nextWord : Plain nextWord
  | bind {α γ : Type} {x : Decoder α} {f : α → Decoder γ} (hx : Plain x) (hf : ∀ a, Plain (f a)) :
      Plain (x >>= f)

namespace Plain

variable {α : Type}

theorem ite {p : Prop} [Decidable p] {x y : Decoder α} (hx : Plain x) (hy : Plain y) :
    Plain (if p then x else y) := by
  split
  · exact hx
  · exact hy

theorem nextLong : Plain nextLong :=
  .bind .nextWord fun _ => .bind .nextWord fun _ => .pure _

theorem readBrief : Plain Ea.readBrief :=
  .bind .nextWord fun _ => .ite (.reserved _) (.pure _)

theorem readImmediate (size : Size) : Plain (Ea.readImmediate size) := by
  cases size with
  | byte => exact .bind .nextWord fun _ => .ite (.reserved _) (.pure _)
  | word => exact .bind .nextWord fun _ => .pure _
  | long => exact .bind .nextLong fun _ => .pure _

theorem read (mode reg : UInt16) (size : Size) : Plain (Ea.read mode reg size) := by
  unfold Ea.read
  split
  case h_6 => exact .bind .nextWord fun _ => .pure _
  case h_7 => exact .bind .readBrief fun _ => .pure _
  case h_8 =>
    split
    · exact .bind .nextWord fun _ => .pure _
    · exact .bind .nextLong fun _ => .pure _
    · exact .bind .markPcRelative fun _ => .bind .nextWord fun _ => .pure _
    · exact .bind .markPcRelative fun _ => .bind .readBrief fun _ => .pure _
    · exact .readImmediate size
    · exact .undecodable _
  all_goals exact .pure _

theorem readLow (size : Size) : Plain (Ea.readLow size) :=
  .bind .opcode fun _ => .read _ _ size

theorem format (f : Format) (name : String) : Plain (f.read name) := by
  unfold Format.read
  refine .bind .opcode fun op => ?_
  cases f with
  | eaToData size | eaToAddr size | toSpecial _ | dataToEa | quick _ | bitInReg | moveExtend | lea
  | pea | jump => exact .bind (.readLow _) fun _ => .pure _
  | immToData size | link => exact .bind (.readImmediate _) fun _ => .pure _
  | sizedEa isDst =>
    dsimp only
    split
    · exact .undecodable _
    · exact .bind (.readLow _) fun _ => .pure _
  | bitInWord =>
    exact .bind .nextWord fun _ => .ite (.reserved _) (.bind (.readLow _) fun _ => .pure _)
  | mulLong =>
    exact .bind .nextWord fun _ =>
      .ite (.reserved _) (.ite (.reserved _) (.bind (.readLow _) fun _ => .pure _))
  | divLong =>
    exact .bind .nextWord fun _ => .ite (.reserved _) (.ite (.reserved _)
      (.bind (.readLow _) fun _ => .ite (.pure _) (.pure _)))
  | move size _ => exact .bind (.readLow _) fun _ => .bind (.read _ _ _) fun _ => .pure _
  | listToEa | eaToList =>
    exact .bind .nextWord fun _ => .bind (.readLow _) fun _ => .pure _
  | branch => exact .ite (.bind .nextWord fun _ => .pure _) (.pure _)
  | longBranch => exact .bind .nextLong fun _ => .pure _
  | tpf =>
    exact .ite (.bind .nextWord fun _ => .pure _) (.ite (.bind .nextLong fun _ => .pure _) (.pure _))
  | immWord | control => exact .bind .nextWord fun _ => .pure _
  | loadStatus =>
    exact .bind .nextWord fun _ => .ite (.reserved _) (.bind .nextWord fun _ => .pure _)
  | dataPair | dataReg _ | shift | moveq | unlk | bare | vector | fromSpecial _ | toUsp | fromUsp
  | cachePush | cacheTouch => exact .pure _

end Plain

end Decoder

namespace WordSource

/-- A source has the opcode word of another one, and its words from one extension word up to
another. -/
structure SameWords (s s' : WordSource) (i j : Nat) : Prop where
  opcode : s'.opcode = s.opcode
  extension : ∀ k, i ≤ k → k < j → ∀ w, s.extension k = .ok w → s'.extension k = .ok w

namespace SameWords

variable {s s' : WordSource} {i j k : Nat}

theorem mono (h : s.SameWords s' i k) {i' k' : Nat} (hi : i ≤ i') (hk : k' ≤ k) :
    s.SameWords s' i' k' where
  opcode := h.opcode
  extension n hn hn' := h.extension n (Nat.le_trans hi hn) (Nat.lt_of_lt_of_le hn' hk)

end SameWords

end WordSource

namespace Decoder

variable {α γ : Type}

/-- A decoder goes on from where it stands, and what it makes of a source it makes of every source
with the same words up to where it has come. -/
def Local (x : Decoder α) : Prop :=
  ∀ ⦃s c a c'⦄, x s c = .ok a c' → c.consumed ≤ c'.consumed ∧
    ∀ s', s.SameWords s' c.consumed c'.consumed → x s' c = .ok a c'

namespace Local

theorem pure (a : α) : Local (Pure.pure a) := by
  rintro s c b c' h
  obtain ⟨rfl, rfl⟩ := pure_eq_ok.1 h
  exact ⟨Nat.le_refl _, fun _ _ => pure_eq_ok.2 ⟨rfl, rfl⟩⟩

theorem reserved (cause : ReservedCause) : Local (reserved cause : Decoder α) := nofun

theorem undecodable (detail : String) : Local (undecodable detail : Decoder α) := nofun

theorem opcode : Local opcode := by
  intro s c w c' h
  obtain ⟨rfl, rfl⟩ := opcode_eq_ok.1 h
  exact ⟨Nat.le_refl _, fun s' hs => opcode_eq_ok.2 ⟨hs.opcode, rfl⟩⟩

theorem markPcRelative : Local markPcRelative := by
  intro s c u c' h
  obtain rfl := markPcRelative_eq_ok.1 h
  exact ⟨Nat.le_refl _, fun _ _ => rfl⟩

theorem nextWord : Local nextWord := by
  intro s c w c' h
  obtain ⟨hw, rfl⟩ := nextWord_eq_ok.1 h
  refine ⟨Nat.le_succ _, fun s' hs => nextWord_eq_ok.2 ⟨?_, rfl⟩⟩
  exact hs.extension c.consumed (Nat.le_refl _) (Nat.lt_succ_self _) w hw

theorem bind {x : Decoder α} {f : α → Decoder γ} (hx : Local x) (hf : ∀ a, Local (f a)) :
    Local (x >>= f) := by
  intro s c b c' h
  obtain ⟨a, c₁, ha, hb⟩ := bind_eq_ok.1 h
  obtain ⟨hle, hagree⟩ := hx ha
  obtain ⟨hle', hagree'⟩ := hf a hb
  refine ⟨Nat.le_trans hle hle', fun s' hs => bind_eq_ok.2 ⟨a, c₁, ?_, ?_⟩⟩
  · exact hagree s' (hs.mono (Nat.le_refl _) hle')
  · exact hagree' s' (hs.mono hle (Nat.le_refl _))

end Local

theorem Plain.isLocal {x : Decoder α} (h : Plain x) : Local x := by
  induction h with
  | pure a => exact .pure a
  | reserved cause => exact .reserved cause
  | undecodable detail => exact .undecodable detail
  | opcode => exact .opcode
  | markPcRelative => exact .markPcRelative
  | nextWord => exact .nextWord
  | bind _ _ hx hf => exact .bind hx hf

end Decoder

namespace Definition

/-- What a definition decodes from some words it decodes from them wherever they stand. -/
theorem decode_of_sameWords {d : Definition} {s s' : WordSource} {c : Cursor} {decoded : Decoded}
    (h : d.decode s .start = .ok decoded c) (hs : s.SameWords s' 0 c.consumed)
    (haddress : s'.address = s.address) : d.decode s' .start = .ok decoded c := by
  unfold decode at h ⊢
  split at h
  · rename_i name ops after hread
    cases h
    rw [((Decoder.Plain.format d.format d.mnemonic).isLocal hread).2 s' hs]
    dsimp only
    rw [hs.opcode, haddress]
  · cases h

end Definition

end ColdFire
