import ColdFire.Proofs.Assembly.OperandText
import ColdFire.Proofs.Catalogue.Forms
import ColdFire.Proofs.Instruction.Decodable

namespace ColdFire

namespace Decoder

variable {α γ : Type} {s : WordSource} {P : α → Prop} {Q : γ → Prop}

def YieldsOn (s : WordSource) (P : α → Prop) (x : Decoder α) : Prop :=
  ∀ ⦃c a c'⦄, x s c = .ok a c' → P a

namespace YieldsOn

theorem any {x : Decoder α} : YieldsOn s (fun _ => True) x := fun _ _ _ _ => trivial

theorem pure {a : α} (h : P a) : YieldsOn s P (Pure.pure a) := by
  rintro c b c' hb
  obtain ⟨rfl, -⟩ := pure_eq_ok.1 hb
  exact h

theorem reserved (cause : ReservedCause) : YieldsOn s P (reserved cause) := nofun

theorem undecodable (detail : String) : YieldsOn s P (undecodable detail) := nofun

theorem bind {x : Decoder α} {f : α → Decoder γ} (hx : YieldsOn s P x)
    (hf : ∀ a, P a → YieldsOn s Q (f a)) : YieldsOn s Q (x >>= f) := by
  intro c b c' h
  obtain ⟨a, c₁, ha, hb⟩ := bind_eq_ok.1 h
  exact hf a (hx ha) hb

theorem bind_any {x : Decoder α} {f : α → Decoder γ} (hf : ∀ a, YieldsOn s Q (f a)) :
    YieldsOn s Q (x >>= f) := any.bind fun a _ => hf a

theorem bind_opcode {f : UInt16 → Decoder γ} (h : YieldsOn s Q (f s.opcode)) :
    YieldsOn s Q (opcode >>= f) := h

theorem ite {p : Prop} [Decidable p] {x y : Decoder α} (hx : YieldsOn s P x) (hy : YieldsOn s P y) :
    YieldsOn s P (if p then x else y) := by
  split
  · exact hx
  · exact hy

end YieldsOn

end Decoder

theorem Field.get_lt_eight {f : Field} (hf : f.InWord) (hwidth : f.width = 3) (w : UInt16) :
    (f.get w).toUInt8 < 8 := by
  have hlt := Field.toNat_get_lt hf w
  rw [hwidth] at hlt
  rw [UInt8.lt_iff_toNat_lt, UInt16.toNat_toUInt8]
  exact Nat.lt_of_le_of_lt (Nat.mod_le _ _) hlt

namespace Ea

def FromField : Ea → Prop
  | dataReg r | addrReg r | indirect r | postInc r | preDec r | disp r _ => r < 8
  | index r _ ix => r < 8 ∧ ix.Exists
  | pcIndex _ ix => ix.Exists
  | absShort _ | absLong _ | pcDisp _ | immediate _ => True
  | regList _ | relative _ | regPair _ _ | special _ => False

variable {s : WordSource}

theorem exists_ofBrief (w : UInt16) : (IndexReg.ofBrief w).Exists where
  reg := Field.get_lt_eight (by decide) rfl w
  scale := by
    change 1 <<< (Field.briefScale.get w).toUInt8 ∈ ([1, 2, 4, 8] : List UInt8)
    rcases eq_of_lt_four (Field.toNat_get_lt (f := .briefScale) (by decide) w) with h | h | h | h
    all_goals
      rw [h]
      decide

theorem fromField_readImmediate (size : Size) :
    Decoder.YieldsOn s FromField (readImmediate size) := by
  cases size with
  | byte => exact .bind_any fun _ => .ite (.reserved _) (.pure trivial)
  | word => exact .bind_any fun _ => .pure trivial
  | long => exact .bind_any fun _ => .pure trivial

theorem readBrief_yields : Decoder.YieldsOn s (fun r : Int8 × IndexReg => r.2.Exists) readBrief :=
  .bind_any fun w => .ite (.reserved _) (.pure (exists_ofBrief w))

theorem fromField_read {mode reg : UInt16} (hreg : reg.toUInt8 < 8) (size : Size) :
    Decoder.YieldsOn s FromField (read mode reg size) := by
  unfold read
  split
  case h_6 => exact .bind_any fun _ => .pure hreg
  case h_7 => exact readBrief_yields.bind fun _ hix => .pure ⟨hreg, hix⟩
  case h_8 =>
    split
    · exact .bind_any fun _ => .pure trivial
    · exact .bind_any fun _ => .pure trivial
    · exact .bind_any fun _ => .bind_any fun _ => .pure trivial
    · exact .bind_any fun _ => readBrief_yields.bind fun _ hix => .pure hix
    · exact fromField_readImmediate size
    · exact .undecodable _
  all_goals exact .pure hreg

theorem fromField_readLow (size : Size) : Decoder.YieldsOn s FromField (readLow size) :=
  .bind_any fun _ => fromField_read (Field.get_lt_eight (by decide) rfl _) size

/-- An operand of a format: what an operand field can name, or what the format has in its place. -/
def ComesFrom (f : Format) : Ea → Prop
  | regList _ => f = .listToEa ∨ f = .eaToList
  | relative _ => f = .branch ∨ f = .longBranch
  | regPair w x => w < 8 ∧ x < 8
  | special (.cache selector) => selector ∈ [1, 2, 3]
  | special _ => True
  | ea => ea.FromField

theorem FromField.comesFrom {f : Format} {ea : Ea} (h : ea.FromField) : ea.ComesFrom f := by
  cases ea with
  | regList _ | relative _ | regPair _ _ | special _ => exact h.elim
  | _ => exact h

end Ea

namespace Operands

structure All (P : Ea → Prop) (ops : Operands) : Prop where
  src : ∀ ea, ops.src = some ea → P ea
  dst : ∀ ea, ops.dst = some ea → P ea

namespace All

variable {P : Ea → Prop} {size : Option Size} {src dst : Ea}

theorem both (hsrc : P src) (hdst : P dst) : All P ⟨size, some src, some dst⟩ where
  src := by rintro ea ⟨⟩; exact hsrc
  dst := by rintro ea ⟨⟩; exact hdst

theorem onlySrc (hsrc : P src) : All P ⟨size, some src, none⟩ where
  src := by rintro ea ⟨⟩; exact hsrc
  dst := nofun

theorem onlyDst (hdst : P dst) : All P ⟨size, none, some dst⟩ where
  src := nofun
  dst := by rintro ea ⟨⟩; exact hdst

theorem neither : All P ⟨size, none, none⟩ where
  src := nofun
  dst := nofun

end All

end Operands

def Format.namesStatus : Format → Bool
  | toSpecial reg | fromSpecial reg => reg = .sr || reg = .ccr
  | _ => true

theorem Catalogue.namesStatus : ∀ d ∈ all, d.format.namesStatus = true :=
  List.all_iff_forall_prop.mp rfl

namespace Definition

variable {d : Definition} {s : WordSource}

theorem comesFrom_read (hd : d ∈ Catalogue.all) (hfits : d.fits s.opcode = true) :
    Decoder.YieldsOn s (fun r => r.2.All (Ea.ComesFrom d.format)) (d.format.read d.mnemonic) := by
  have hlow : (Field.lowReg.get s.opcode).toUInt8 < 8 := Field.get_lt_eight (by decide) rfl _
  have hhigh : (Field.highReg.get s.opcode).toUInt8 < 8 := Field.get_lt_eight (by decide) rfl _
  have hstatus := Catalogue.namesStatus d hd
  have hregular := Catalogue.regular d hd
  unfold Format.read
  refine .bind_opcode ?_
  cases hf : d.format with
  | eaToData size | eaToAddr size | moveExtend | lea =>
    exact (Ea.fromField_readLow _).bind fun _ hea => .pure (.both hea.comesFrom hhigh)
  | dataToEa | bitInReg =>
    exact (Ea.fromField_readLow _).bind fun _ hea => .pure (.both hhigh hea.comesFrom)
  | immToData size =>
    exact (Ea.fromField_readImmediate _).bind fun _ hea => .pure (.both hea.comesFrom hlow)
  | quick data =>
    exact (Ea.fromField_readLow _).bind fun _ hea => .pure (.both trivial hea.comesFrom)
  | dataPair => exact .pure (.both hlow hhigh)
  | dataReg size => exact .pure (.onlyDst hlow)
  | sizedEa isDst =>
    dsimp only
    split
    · exact .undecodable _
    · refine (Ea.fromField_readLow _).bind fun _ hea => .pure ?_
      cases isDst
      · exact .onlySrc hea.comesFrom
      · exact .onlyDst hea.comesFrom
  | shift =>
    refine .pure (.both ?_ hlow)
    split
    · exact Field.get_lt_eight (by decide) rfl _
    · trivial
  | bitInWord =>
    exact .bind_any fun _ => .ite (.reserved _)
      ((Ea.fromField_readLow _).bind fun _ hea => .pure (.both trivial hea.comesFrom))
  | mulLong =>
    exact .bind_any fun _ => .ite (.reserved _) (.ite (.reserved _)
      ((Ea.fromField_readLow _).bind fun _ hea =>
        .pure (.both hea.comesFrom (Field.get_lt_eight (by decide) rfl _))))
  | divLong =>
    have hreg {f : Field} (hword : f.InWord) (hwidth : f.width = 3) (w : UInt16) :=
      Field.get_lt_eight hword hwidth w
    exact .bind_any fun ext => .ite (.reserved _) (.ite (.reserved _)
      ((Ea.fromField_readLow _).bind fun _ hea => .ite
        (.pure (.both hea.comesFrom (hreg (by decide) rfl ext)))
        (.pure (.both hea.comesFrom ⟨hreg (by decide) rfl ext, hreg (by decide) rfl ext⟩))))
  | move size _ =>
    exact (Ea.fromField_readLow _).bind fun _ hsrc =>
      (Ea.fromField_read (Field.get_lt_eight (by decide) rfl _) _).bind fun _ hdst =>
        .pure (.both hsrc.comesFrom hdst.comesFrom)
  | moveq => exact .pure (.both trivial hhigh)
  | listToEa =>
    exact .bind_any fun _ => (Ea.fromField_readLow _).bind fun _ hea =>
      .pure (.both (.inl rfl) hea.comesFrom)
  | eaToList =>
    exact .bind_any fun _ => (Ea.fromField_readLow _).bind fun _ hea =>
      .pure (.both hea.comesFrom (.inr rfl))
  | pea | jump => exact (Ea.fromField_readLow _).bind fun _ hea => .pure (.onlySrc hea.comesFrom)
  | link =>
    exact (Ea.fromField_readImmediate _).bind fun _ hea => .pure (.both hlow hea.comesFrom)
  | unlk | cacheTouch => exact .pure (.onlyDst hlow)
  | branch =>
    exact .ite (.bind_any fun _ => .pure (.onlySrc (.inl rfl))) (.pure (.onlySrc (.inl rfl)))
  | longBranch => exact .bind_any fun _ => .pure (.onlySrc (.inr rfl))
  | tpf =>
    exact .ite (.bind_any fun _ => .pure (.onlySrc trivial))
      (.ite (.bind_any fun _ => .pure (.onlySrc trivial)) (.pure .neither))
  | bare => exact .pure .neither
  | immWord => exact .bind_any fun _ => .pure (.onlySrc trivial)
  | vector => exact .pure (.onlySrc trivial)
  | toSpecial reg =>
    rw [hf, Format.namesStatus, Bool.or_eq_true, decide_eq_true_eq, decide_eq_true_eq] at hstatus
    refine (Ea.fromField_readLow _).bind fun _ hea => .pure (.both hea.comesFrom ?_)
    rcases hstatus with rfl | rfl <;> trivial
  | fromSpecial reg =>
    rw [hf, Format.namesStatus, Bool.or_eq_true, decide_eq_true_eq, decide_eq_true_eq] at hstatus
    refine .pure (.both ?_ hlow)
    rcases hstatus with rfl | rfl <;> trivial
  | toUsp => exact .pure (.both hlow trivial)
  | fromUsp => exact .pure (.both trivial hlow)
  | control =>
    refine .bind_any fun ext => .pure (.both ?_ trivial)
    have hreg : (Field.controlReg.get ext).toUInt8 < 8 := Field.get_lt_eight (by decide) rfl _
    split
    · exact hreg
    · exact hreg
  | cachePush =>
    -- the definition leaves out the words that name no cache
    have hne : Field.cache.get s.opcode ≠ 0 :=
      get_ne_of_excluded hfits (by decide) 0 (by rw [hregular.exclusions, hf]; decide)
    refine .pure (.both ?_ hlow)
    change (Field.cache.get s.opcode).toUInt8 ∈ ([1, 2, 3] : List UInt8)
    rcases eq_of_lt_four (Field.toNat_get_lt (f := .cache) (by decide) s.opcode) with h | h | h | h
    · exact absurd h hne
    all_goals
      rw [h]
      decide
  | loadStatus =>
    exact .bind_any fun _ => .ite (.reserved _) (.bind_any fun _ => .pure (.onlySrc trivial))

end Definition

end ColdFire
