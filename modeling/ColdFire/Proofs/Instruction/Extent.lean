import ColdFire.Proofs.Instruction.Plain
import ColdFire.Proofs.Instruction.WordSource

namespace ColdFire

namespace Decoder

variable {α γ : Type}

/-- Every extension word that a decoder passes it has read. -/
theorem Plain.reads {x : Decoder α} (h : Plain x) {s : WordSource} {c c' : Cursor} {a : α}
    (hx : x s c = .ok a c') {k : Nat} (hlo : c.consumed ≤ k) (hhi : k < c'.consumed) :
    ∃ w, s.extension k = .ok w := by
  induction h generalizing c c' with
  | pure _ =>
    obtain ⟨-, rfl⟩ := pure_eq_ok.1 hx
    omega
  | reserved _ => exact absurd hx reserved_ne_ok
  | undecodable _ => exact absurd hx undecodable_ne_ok
  | opcode =>
    obtain ⟨-, rfl⟩ := opcode_eq_ok.1 hx
    omega
  | markPcRelative =>
    cases markPcRelative_eq_ok.1 hx
    exact absurd hhi (by simpa using hlo)
  | nextWord =>
    obtain ⟨hw, rfl⟩ := nextWord_eq_ok.1 hx
    obtain rfl : k = c.consumed := by
      dsimp only at hhi
      omega
    exact ⟨_, hw⟩
  | bind _ _ ihx ihf =>
    obtain ⟨b, c₁, hb, hx⟩ := bind_eq_ok.1 hx
    -- the word was read by the one or by the other decoder
    by_cases hmid : k < c₁.consumed
    · exact ihx hb hlo hmid
    · exact ihf b hx (by omega) hhi

/-- A decoder reads `n` extension words at most. -/
def Takes (n : Nat) (x : Decoder α) : Prop :=
  ∀ ⦃s c a c'⦄, x s c = .ok a c' → c'.consumed ≤ c.consumed + n

namespace Takes

variable {k n : Nat} {x y : Decoder α}

theorem pure (a : α) : Takes n (Pure.pure a : Decoder α) := by
  intro s c b c' h
  obtain ⟨-, rfl⟩ := pure_eq_ok.1 h
  exact Nat.le_add_right _ _

theorem reserved (cause : ReservedCause) : Takes n (reserved cause : Decoder α) := nofun

theorem undecodable (detail : String) : Takes n (undecodable detail : Decoder α) := nofun

theorem opcode : Takes 0 opcode := by
  intro s c w c' h
  obtain ⟨-, rfl⟩ := opcode_eq_ok.1 h
  exact Nat.le_refl _

theorem markPcRelative : Takes 0 markPcRelative := by
  intro s c u c' h
  cases markPcRelative_eq_ok.1 h
  exact Nat.le_refl _

theorem nextWord : Takes 1 nextWord := by
  intro s c w c' h
  obtain ⟨-, rfl⟩ := nextWord_eq_ok.1 h
  exact Nat.le_refl _

theorem bind {f : α → Decoder γ} (hx : Takes k x) (hf : ∀ a, Takes n (f a)) :
    Takes (n + k) (x >>= f) := by
  intro s c b c' h
  obtain ⟨a, c₁, ha, hb⟩ := bind_eq_ok.1 h
  have hk := hx ha
  have hn := hf a hb
  omega

theorem ite {p : Prop} [Decidable p] (hx : Takes n x) (hy : Takes n y) :
    Takes n (if p then x else y) := by
  split
  · exact hx
  · exact hy

theorem nextLong : Takes 2 nextLong :=
  .bind (k := 1) .nextWord fun _ => .bind (k := 1) .nextWord fun _ => .pure _

theorem readBrief : Takes 1 Ea.readBrief :=
  .bind (k := 1) .nextWord fun _ => .ite (.reserved _) (.pure _)

theorem readImmediate (size : Size) : Takes 2 (Ea.readImmediate size) := by
  cases size with
  | byte => exact .bind (k := 1) .nextWord fun _ => .ite (.reserved _) (.pure _)
  | word => exact .bind (k := 1) .nextWord fun _ => .pure _
  | long => exact .bind (k := 2) .nextLong fun _ => .pure _

theorem read (mode reg : UInt16) (size : Size) : Takes 2 (Ea.read mode reg size) := by
  unfold Ea.read
  split
  case h_6 => exact .bind (k := 1) .nextWord fun _ => .pure _
  case h_7 => exact .bind (k := 1) .readBrief fun _ => .pure _
  case h_8 =>
    split
    · exact .bind (k := 1) .nextWord fun _ => .pure _
    · exact .bind (k := 2) .nextLong fun _ => .pure _
    · exact .bind (k := 0) .markPcRelative fun _ => .bind (k := 1) .nextWord fun _ => .pure _
    · exact .bind (k := 0) .markPcRelative fun _ => .bind (k := 1) .readBrief fun _ => .pure _
    · exact .readImmediate size
    · exact .undecodable _
  all_goals exact .pure _

theorem readLow (size : Size) : Takes 2 (Ea.readLow size) :=
  .bind (k := 0) .opcode fun _ => .read _ _ size

/-- No format has more than four extension words: a source and a destination with two each. -/
theorem format (f : Format) (name : String) : Takes 4 (f.read name) := by
  unfold Format.read
  refine .bind (k := 0) .opcode fun op => ?_
  cases f with
  | eaToData _ | eaToAddr _ | toSpecial _ | dataToEa | quick _ | bitInReg | moveExtend | lea | pea
  | jump => exact .bind (k := 2) (.readLow _) fun _ => .pure _
  | immToData _ | link => exact .bind (k := 2) (.readImmediate _) fun _ => .pure _
  | sizedEa _ =>
    dsimp only
    split
    · exact .undecodable _
    · exact .bind (k := 2) (.readLow _) fun _ => .pure _
  | bitInWord =>
    exact .bind (k := 1) .nextWord fun _ => .ite (.reserved _)
      (.bind (k := 2) (.readLow _) fun _ => .pure _)
  | mulLong =>
    exact .bind (k := 1) .nextWord fun _ => .ite (.reserved _) (.ite (.reserved _)
      (.bind (k := 2) (.readLow _) fun _ => .pure _))
  | divLong =>
    exact .bind (k := 1) .nextWord fun _ => .ite (.reserved _) (.ite (.reserved _)
      (.bind (k := 2) (.readLow _) fun _ => .ite (.pure _) (.pure _)))
  | move _ _ =>
    exact .bind (k := 2) (.readLow _) fun _ => .bind (k := 2) (.read _ _ _) fun _ => .pure _
  | listToEa | eaToList =>
    exact .bind (k := 1) .nextWord fun _ => .bind (k := 2) (.readLow _) fun _ => .pure _
  | branch => exact .ite (.bind (k := 1) .nextWord fun _ => .pure _) (.pure _)
  | longBranch => exact .bind (k := 2) .nextLong fun _ => .pure _
  | tpf =>
    exact .ite (.bind (k := 1) .nextWord fun _ => .pure _)
      (.ite (.bind (k := 2) .nextLong fun _ => .pure _) (.pure _))
  | immWord | control => exact .bind (k := 1) .nextWord fun _ => .pure _
  | loadStatus =>
    exact .bind (k := 1) .nextWord fun _ => .ite (.reserved _)
      (.bind (k := 1) .nextWord fun _ => .pure _)
  | dataPair | dataReg _ | shift | moveq | unlk | bare | vector | fromSpecial _ | toUsp | fromUsp
  | cachePush | cacheTouch => exact .pure _

end Takes

end Decoder

namespace Definition

variable {d : Definition} {s : WordSource} {c : Cursor} {decoded : Decoded}

theorem extent_of_decode (h : d.decode s .start = .ok decoded c) :
    decoded.address = s.address ∧ decoded.extWords ≤ 4 ∧
      ∀ k < decoded.extWords, ∃ w, s.extension k = .ok w := by
  unfold decode at h
  split at h
  · rename_i hread
    cases h
    refine ⟨rfl, ?_, fun k hk => ?_⟩
    · simpa [Cursor.start] using Decoder.Takes.format d.format d.mnemonic hread
    · exact (Decoder.Plain.format d.format d.mnemonic).reads hread (Nat.zero_le k) hk
  · cases h

end Definition

end ColdFire
