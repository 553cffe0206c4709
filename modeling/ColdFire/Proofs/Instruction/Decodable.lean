import ColdFire.Instruction.Decode
import ColdFire.Proofs.Instruction.Apart

namespace ColdFire

/-- A failure that the words of a source account for: one of them cannot be read, or they hold a
reserved encoding. -/
def WordSource.Explains (s : WordSource) (t : Trap) : Prop :=
  (∃ i, s.extension i = .error t) ∨ ∃ opcode addr cause, t = .reserved opcode addr cause

namespace Decoder

variable {α γ : Type} {s : WordSource}

/-- The words of a source account for every failure of a decoder on them. -/
def SoundOn (s : WordSource) (x : Decoder α) : Prop :=
  ∀ c t c', x s c = .error t c' → s.Explains t

namespace SoundOn

theorem pure (a : α) : SoundOn s (Pure.pure a) := nofun

theorem reserved (cause : ReservedCause) : SoundOn s (reserved cause : Decoder α) := by
  rintro c t c' ⟨⟩
  exact .inr ⟨_, _, _, rfl⟩

theorem nextWord : SoundOn s nextWord := by
  intro c t c' h
  unfold Decoder.nextWord at h
  split at h
  · cases h
  · rename_i hword
    cases h
    exact .inl ⟨_, hword⟩

theorem markPcRelative : SoundOn s markPcRelative := nofun

theorem bind {x : Decoder α} {f : α → Decoder γ} (hx : SoundOn s x) (hf : ∀ a, SoundOn s (f a)) :
    SoundOn s (x >>= f) := by
  intro c t c' h
  simp only [Bind.bind, ReaderT.bind, EStateM.bind] at h
  split at h
  · exact hf _ _ _ _ h
  · rename_i hfails
    cases h
    exact hx _ _ _ hfails

theorem bind_opcode {f : UInt16 → Decoder γ} (h : SoundOn s (f s.opcode)) :
    SoundOn s (opcode >>= f) := h

theorem ite {p : Prop} [Decidable p] {x y : Decoder α} (hx : SoundOn s x) (hy : SoundOn s y) :
    SoundOn s (if p then x else y) := by
  split
  · exact hx
  · exact hy

theorem nextLong : SoundOn s nextLong :=
  .bind .nextWord fun _ => .bind .nextWord fun _ => .pure _

theorem readBrief : SoundOn s Ea.readBrief :=
  .bind .nextWord fun _ => .ite (.reserved _) (.pure _)

theorem readImmediate (size : Size) : SoundOn s (Ea.readImmediate size) := by
  cases size with
  | byte => exact .bind .nextWord fun _ => .ite (.reserved _) (.pure _)
  | word => exact .bind .nextWord fun _ => .pure _
  | long => exact .bind .nextLong fun _ => .pure _

theorem read {mode reg : UInt16} (h : Modes.ofField? mode reg ≠ none) (size : Size) :
    SoundOn s (Ea.read mode reg size) := by
  unfold Ea.read
  unfold Modes.ofField? at h
  split
  case h_6 => exact .bind .nextWord fun _ => .pure _
  case h_7 => exact .bind .readBrief fun _ => .pure _
  case h_8 =>
    split
    · exact .bind .nextWord fun _ => .pure _
    · exact .bind .nextLong fun _ => .pure _
    · exact .bind .markPcRelative fun _ => .bind .nextWord fun _ => .pure _
    · exact .bind .markPcRelative fun _ => .bind .readBrief fun _ => .pure _
    · exact .readImmediate size
    · simp_all
  all_goals exact .pure _

theorem readLow (h : Modes.ofField? (Field.eaMode.get s.opcode) (Field.eaReg.get s.opcode) ≠ none)
    (size : Size) : SoundOn s (Ea.readLow size) :=
  .bind_opcode (.read h size)

end SoundOn

end Decoder

namespace Definition

variable {d : Definition} {s : WordSource} {w : UInt16}

theorem ofField?_of_any {mode reg : UInt16} {modes : Modes}
    (h : (Modes.ofField? mode reg).any modes.contains = true) : Modes.ofField? mode reg ≠ none := by
  obtain ⟨m, hm, -⟩ := any_contains h
  rw [hm]
  exact nofun

theorem low_of_fits (hd : d.Regular) (hfits : d.fits w = true) (hslot : d.format.slot ≠ .none) :
    Modes.ofField? (Field.eaMode.get w) (Field.eaReg.get w) ≠ none := by
  have hadmits := (fits_iff.1 hfits).2.2
  rw [hd.slot] at hadmits
  cases hs : d.format.slot with
  | none => exact absurd hs hslot
  | src | dst =>
    rw [hs] at hadmits
    exact ofField?_of_any hadmits
  | move =>
    rw [hs] at hadmits
    exact ofField?_of_any hadmits.1

theorem upper_of_fits (hd : d.Regular) (hfits : d.fits w = true) (hslot : d.format.slot = .move) :
    Modes.ofField? (Field.moveMode.get w) (Field.moveReg.get w) ≠ none := by
  have hadmits := (fits_iff.1 hfits).2.2
  rw [hd.slot, hslot] at hadmits
  exact ofField?_of_any hadmits.2

theorem size_of_fits (hd : d.Regular) (hfits : d.fits w = true) {isDst : Bool}
    (hf : d.format = .sizedEa isDst) : ∃ size, Size.ofBits? (Field.size.get w) = some size := by
  have hne : Field.size.get w ≠ 3 :=
    get_ne_of_excluded hfits (by decide) 3 (by rw [hd.exclusions, hf]; cases isDst <;> decide)
  rcases eq_of_lt_four (Field.toNat_get_lt (f := .size) (by decide) w) with h | h | h | h
  · exact ⟨.byte, by rw [h]; rfl⟩
  · exact ⟨.word, by rw [h]; rfl⟩
  · exact ⟨.long, by rw [h]; rfl⟩
  · exact absurd h hne

/-- The words behind a claimed opcode word account for every failure to read its operands. -/
theorem soundOn_read (hd : d.Regular) (hfits : d.fits s.opcode = true) :
    Decoder.SoundOn s (d.format.read d.mnemonic) := by
  have hlow (hslot : d.format.slot ≠ .none) (size : Size) : Decoder.SoundOn s (Ea.readLow size) :=
    .readLow (low_of_fits hd hfits hslot) size
  unfold Format.read
  refine .bind_opcode ?_
  cases hf : d.format with
  | eaToData size | eaToAddr size | toSpecial _ | dataToEa | quick _ | bitInReg | moveExtend | lea
  | pea | jump =>
    rw [hf] at hlow
    exact .bind (hlow nofun _) fun _ => .pure _
  | immToData size | link => exact .bind (.readImmediate _) fun _ => .pure _
  | sizedEa isDst =>
    obtain ⟨size, hsize⟩ := size_of_fits hd hfits hf
    rw [hf] at hlow
    dsimp only
    rw [hsize]
    exact .bind (hlow (by cases isDst <;> nofun) _) fun _ => .pure _
  | bitInWord =>
    rw [hf] at hlow
    exact .bind .nextWord fun _ => .ite (.reserved _) (.bind (hlow nofun _) fun _ => .pure _)
  | mulLong =>
    rw [hf] at hlow
    exact .bind .nextWord fun _ =>
      .ite (.reserved _) (.ite (.reserved _) (.bind (hlow nofun _) fun _ => .pure _))
  | divLong =>
    rw [hf] at hlow
    exact .bind .nextWord fun _ => .ite (.reserved _) (.ite (.reserved _)
      (.bind (hlow nofun _) fun _ => .ite (.pure _) (.pure _)))
  | move size _ =>
    have hupper := upper_of_fits hd hfits (by rw [hf]; rfl)
    rw [hf] at hlow
    exact .bind (hlow nofun _) fun _ => .bind (.read hupper _) fun _ => .pure _
  | listToEa | eaToList =>
    rw [hf] at hlow
    exact .bind .nextWord fun _ => .bind (hlow nofun _) fun _ => .pure _
  | branch => exact .ite (.bind .nextWord fun _ => .pure _) (.pure _)
  | longBranch => exact .bind .nextLong fun _ => .pure _
  | tpf =>
    exact .ite (.bind .nextWord fun _ => .pure _) (.ite (.bind .nextLong fun _ => .pure _) (.pure _))
  | immWord | control => exact .bind .nextWord fun _ => .pure _
  | loadStatus =>
    exact .bind .nextWord fun _ => .ite (.reserved _) (.bind .nextWord fun _ => .pure _)
  | dataPair | dataReg _ | shift | moveq | unlk | bare | vector | fromSpecial _ | toUsp | fromUsp
  | cachePush | cacheTouch => exact .pure _

end Definition

end ColdFire
