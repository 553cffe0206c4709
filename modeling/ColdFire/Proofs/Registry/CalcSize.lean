import ColdFire.Proofs.Instruction.Planned
import ColdFire.Proofs.Registry.Choose

namespace ColdFire

def IndexReg.hasScale (ix : IndexReg) : Bool := [1, 2, 4, 8].contains ix.scale

def Ea.hasScale : Ea → Bool
  | index _ _ ix | pcIndex _ ix => ix.hasScale
  | _ => true

def Ext.hasScale : Ext → Bool
  | ea operand _ => operand.hasScale
  | word _ | long _ => true

def Operands.haveScales (ops : Operands) : Bool :=
  ops.src.all Ea.hasScale && ops.dst.all Ea.hasScale

theorem Ea.briefWords_ok_iff {disp : Int8} {ix : IndexReg} :
    (∃ ws, briefWords disp ix = .ok ws) ↔ ix.hasScale = true := by
  unfold briefWords IndexReg.briefWord? IndexReg.hasScale IndexReg.scaleCode?
  split <;> grind

theorem Ea.words_ok_iff {ea : Ea} {size : Size} :
    (∃ ws, ea.words size = .ok ws) ↔ ea.hasScale = true := by
  cases ea with
  | index _ d ix | pcIndex d ix => exact briefWords_ok_iff
  | immediate v => cases size <;> exact ⟨fun _ => rfl, fun _ => ⟨_, rfl⟩⟩
  | _ => exact ⟨fun _ => rfl, fun _ => ⟨_, rfl⟩⟩

namespace Ext

theorem words_ok_iff {p : Ext} : (∃ ws, p.words = .ok ws) ↔ p.hasScale = true := by
  cases p with
  | word w | long v => exact ⟨fun _ => rfl, fun _ => ⟨_, rfl⟩⟩
  | ea e size => exact Ea.words_ok_iff

theorem mapM_words_ok_iff {pieces : List Ext} :
    (∃ wss, pieces.mapM words = .ok wss) ↔ pieces.all hasScale = true := by
  induction pieces with
  | nil => exact ⟨fun _ => rfl, fun _ => ⟨[], rfl⟩⟩
  | cons p rest ih =>
    rw [List.all_cons, Bool.and_eq_true, ← words_ok_iff, ← ih]
    simp only [List.mapM_cons, except_bind_eq_ok, except_pure_eq_ok]
    constructor
    · rintro ⟨_, ws, hws, wss, hwss, -⟩
      exact ⟨⟨ws, hws⟩, wss, hwss⟩
    · rintro ⟨⟨ws, hws⟩, wss, hwss⟩
      exact ⟨_, ws, hws, wss, hwss, rfl⟩

end Ext

/-- Nothing but a scale keeps the words of a planned encoding from being written. -/
theorem Encoding.words_ok_iff {e : Encoding} :
    (∃ ws, e.words = .ok ws) ↔ e.ext.all Ext.hasScale = true := by
  rw [← Ext.mapM_words_ok_iff]
  simp only [words, except_bind_eq_ok, except_pure_eq_ok]
  constructor
  · rintro ⟨_, wss, hwss, -⟩
    exact ⟨wss, hwss⟩
  · rintro ⟨wss, hwss⟩
    exact ⟨_, wss, hwss, rfl⟩

namespace Definition

variable {d : Definition} {name : String} {ops : Operands} {e : Encoding}

theorem hasScale_of_register {ea : Ea} (h : (Modes.dn ∪ .an).contains ea.modes = true) :
    ea.hasScale = true := by
  cases ea with
  | index => exact absurd (show (Modes.dn ∪ .an).contains .index = true from h) (by decide)
  | pcIndex => exact absurd (show (Modes.dn ∪ .an).contains .pcIndex = true from h) (by decide)
  | _ => rfl

/-- Every operand with an index register becomes a piece of the encoding, in whatever form. -/
theorem hasScale_of_plan (h : d.plan name ops = .ok e) :
    e.ext.all Ext.hasScale = ops.haveScales := by
  unfold Operands.haveScales
  cases hf : d.format with
  | sizedEa isDst =>
    obtain ⟨_, ea, -, hsrc, hdst, -, -, -, rfl⟩ := of_plan_sizedEa h hf
    cases isDst with
    | true => simp [hsrc, hdst, Ext.hasScale]
    | false => simp [hsrc, hdst, Ext.hasScale]
  | quick data =>
    obtain ⟨_, v, _, ea, -, hsrc, -, hdst, -, -, rfl⟩ := of_plan_quick h hf
    simp [hsrc, hdst, Ext.hasScale, Ea.hasScale]
  | shift =>
    obtain ⟨_, r, -, hdst, ⟨q, hsrc, rfl⟩ | ⟨v, _, hsrc, -, rfl⟩⟩ := of_plan_shift h hf
    · simp [hsrc, hdst, Ea.hasScale]
    · simp [hsrc, hdst, Ea.hasScale]
  | divLong =>
    obtain ⟨_, ea, r, q, -, hsrc, -, -, ⟨-, hdst, -⟩ | ⟨-, hdst, -⟩, rfl⟩ := of_plan_divLong h hf
    · simp [hsrc, hdst, Ext.hasScale, Ea.hasScale]
    · simp [hsrc, hdst, Ext.hasScale, Ea.hasScale]
  | branch =>
    obtain ⟨off, hsrc, hdst, ⟨-, -, rfl⟩ | ⟨-, -, rfl⟩⟩ := of_plan_branch hf h
    · simp [hsrc, hdst, Ea.hasScale]
    · simp [hsrc, hdst, Ext.hasScale, Ea.hasScale]
  | longBranch =>
    obtain ⟨off, hsrc, hdst, -, rfl⟩ := of_plan_longBranch h hf
    simp [hsrc, hdst, Ext.hasScale, Ea.hasScale]
  | tpf =>
    obtain ⟨hdst, ⟨-, hsrc, rfl⟩ | ⟨v, hsrc, ⟨-, rfl⟩ | ⟨-, rfl⟩⟩⟩ := of_plan_tpf h hf
    · simp [hsrc, hdst]
    · simp [hsrc, hdst, Ext.hasScale, Ea.hasScale]
    · simp [hsrc, hdst, Ext.hasScale, Ea.hasScale]
  | control =>
    simp only [plan, hf, except_bind_eq_ok, except_pure_eq_ok, Operands.require_eq_ok,
      Operands.requireControl_eq_ok] at h
    obtain ⟨_, -, ea, ⟨hsrc, hin, -⟩, code, ⟨hdst, -⟩, rfl⟩ := h
    rw [hsrc, hdst, Option.all_some, hasScale_of_register hin]
    rfl
  | _ =>
    -- one way to encode: each demand passes, and the pieces are listed
    simp only [plan, hf, except_bind_eq_ok, except_pure_eq_ok, except_guard_eq_ok,
      Operands.require_eq_ok, Operands.requireDataReg_eq_ok, Operands.requireAddrReg_eq_ok,
      Operands.requireImmediate_eq_ok, Operands.requireIndirect_eq_ok, Operands.forbid_eq_ok,
      Operands.requireList_eq_ok, Operands.requireCache_eq_ok, Operands.requireSpecial_eq_ok] at h
    grind [Ext.hasScale, Ea.hasScale]

end Definition

namespace Registry

variable (name : String) (ops : Operands) (tier : Tier)

/-- A request is encoded to words of some size if that size is calculated for it and its scales have
codes, and not otherwise. -/
theorem encode_size_iff (n : Nat) :
    (∃ ws, full.encode name ops tier = .ok ws ∧ 2 * ws.length = n) ↔
      full.calcSize name ops tier = .ok n ∧ ops.haveScales = true := by
  cases hchoose : full.choose name ops tier with
  | error err =>
    have hencode : full.encode name ops tier = .error err := by
      rw [encode, hchoose]
      rfl
    have hsize : full.calcSize name ops tier = .error err := by
      rw [calcSize, hchoose]
      rfl
    rw [hencode, hsize]
    constructor
    · rintro ⟨_, ⟨⟩, _⟩
    · rintro ⟨⟨⟩, _⟩
  | ok chosen =>
    obtain ⟨x, e⟩ := chosen
    have hencode : full.encode name ops tier = e.words := by
      rw [encode, hchoose]
      rfl
    have hsize : full.calcSize name ops tier = .ok e.length := by
      rw [calcSize, hchoose]
      rfl
    have hplan := (of_choose hchoose).2.2.2
    rw [hencode, hsize, ← Definition.hasScale_of_plan hplan, ← Encoding.words_ok_iff]
    constructor
    · rintro ⟨ws, hws, rfl⟩
      exact ⟨congrArg Except.ok (Encoding.length_words hws), ws, hws⟩
    · rintro ⟨hn, ws, hws⟩
      obtain rfl := Except.ok.inj hn
      exact ⟨ws, hws, (Encoding.length_words hws).symm⟩

/-- A jump through an index register that is scaled by three has a size but no words. -/
theorem calcSize_of_scale_three :
    let ops : Operands := ⟨none, some (.index 0 0 ⟨false, 0, true, 3⟩), none⟩
    full.calcSize "jmp" ops .a = .ok 4 ∧ ¬ ∃ ws, full.encode "jmp" ops .a = .ok ws := by
  intro ops
  have hencode : full.encode "jmp" ops .a =
      .error (.outOfRange "<ea>" 3 "index scale must be 1, 2, 4 or 8") := rfl
  refine ⟨rfl, ?_⟩
  rw [hencode]
  exact nofun

end Registry

end ColdFire
