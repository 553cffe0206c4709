import ColdFire.Instruction.Basic
import ColdFire.Proofs.Instruction.Demand
import ColdFire.Proofs.Operand.Code

namespace ColdFire

namespace Definition

variable {d : Definition} {name : String} {ops : Operands} {e : Encoding}

theorem of_plan_sizedEa {isDst : Bool} (h : d.plan name ops = .ok e)
    (hf : d.format = .sizedEa isDst) :
    ∃ size ea, d.pickSize ops.size = .ok size ∧ ops.src = (if isDst then none else some ea) ∧
      ops.dst = (if isDst then some ea else none) ∧
      (if isDst then d.dstModes else d.srcModes).contains ea.modes = true ∧ ea.modes ≠ .none ∧
      ¬ (size = .byte ∧ ea.modes = .an) ∧
      e = ⟨Field.size.set d.opcode size.toBits ||| ea.lowField, [.ea ea size]⟩ := by
  cases isDst with
  | true =>
    simp only [plan, hf, if_true, except_bind_eq_ok, except_pure_eq_ok, Operands.forbid_eq_ok] at h
    obtain ⟨size, hsize, _, hsrc, _, rfl, ea, hdst, _, hbyte, rfl⟩ := h
    obtain ⟨hdst, hin, hne⟩ := Operands.require_eq_ok.1 hdst
    exact ⟨size, ea, hsize, hsrc, hdst, hin, hne, Operands.refuseByteOfAddr_eq_ok.1 hbyte, rfl⟩
  | false =>
    simp only [plan, hf, Bool.false_eq_true, if_false, except_bind_eq_ok, except_pure_eq_ok,
      Operands.forbid_eq_ok] at h
    obtain ⟨size, hsize, _, hdst, _, rfl, ea, hsrc, _, hbyte, rfl⟩ := h
    obtain ⟨hsrc, hin, hne⟩ := Operands.require_eq_ok.1 hsrc
    exact ⟨size, ea, hsize, hsrc, hdst, hin, hne, Operands.refuseByteOfAddr_eq_ok.1 hbyte, rfl⟩

theorem of_plan_quick {data : QuickData} (h : d.plan name ops = .ok e)
    (hf : d.format = .quick data) :
    ∃ size v x ea, d.pickSize ops.size = .ok size ∧ ops.src = some (.immediate v) ∧
      data.toField? v = some x ∧ ops.dst = some ea ∧ d.dstModes.contains ea.modes = true ∧
      ea.modes ≠ .none ∧ e = ⟨Field.quickData.set d.opcode x ||| ea.lowField, [.ea ea size]⟩ := by
  simp only [plan, hf, except_bind_eq_ok, Operands.requireImmediate_eq_ok] at h
  obtain ⟨size, hsize, _, ⟨v, hsrc, rfl⟩, h⟩ := h
  cases hfield : data.toField? v with
  | none =>
    rw [hfield] at h
    exact absurd h except_throw_ne_ok
  | some x =>
    simp only [hfield, except_bind_eq_ok, except_pure_eq_ok, Operands.require_eq_ok] at h
    obtain ⟨ea, ⟨hdst, hin, hne⟩, rfl⟩ := h
    exact ⟨size, v, x, ea, hsize, hsrc, hfield, hdst, hin, hne, rfl⟩

theorem of_plan_shift (h : d.plan name ops = .ok e) (hf : d.format = .shift) :
    ∃ size r, d.pickSize ops.size = .ok size ∧ ops.dst = some (.dataReg r) ∧
      ((∃ q, ops.src = some (.dataReg q) ∧
        e = ⟨Field.shiftCount.set (Field.shiftInReg.set (Field.lowReg.set d.opcode r.toUInt16) 1)
          q.toUInt16, []⟩) ∨
      ∃ v x, ops.src = some (.immediate v) ∧ QuickData.oneToEight.toField? v = some x ∧
        e = ⟨Field.shiftCount.set (Field.shiftInReg.set (Field.lowReg.set d.opcode r.toUInt16) 0)
          x, []⟩) := by
  simp only [plan, hf, except_bind_eq_ok, Operands.requireDataReg_eq_ok] at h
  obtain ⟨size, hsize, _, ⟨r, hdst, rfl⟩, h⟩ := h
  refine ⟨size, r, hsize, hdst, ?_⟩
  split at h
  · rename_i q hsrc
    exact .inl ⟨q, hsrc, (except_pure_eq_ok.1 h).symm⟩
  · rename_i v hsrc
    split at h
    · rename_i x hx
      exact .inr ⟨v, x, hsrc, hx, (except_pure_eq_ok.1 h).symm⟩
    · exact absurd h except_throw_ne_ok
  · exact absurd h except_throw_ne_ok
  · exact absurd h except_throw_ne_ok

/-- A division gives a remainder, or a quotient alone, whose register then stands in both places. -/
theorem of_plan_divLong (h : d.plan name ops = .ok e) (hf : d.format = .divLong) :
    ∃ size ea r q, d.pickSize ops.size = .ok size ∧ ops.src = some ea ∧
      d.srcModes.contains ea.modes = true ∧ ea.modes ≠ .none ∧
      ("rem".toList.isPrefixOf (Text.lower name.toList) = true ∧
          ops.dst = some (.regPair r q) ∧ r ≠ q ∨
        ¬ "rem".toList.isPrefixOf (Text.lower name.toList) = true ∧
          ops.dst = some (.dataReg q) ∧ r = q) ∧
      e = ⟨d.opcode ||| ea.lowField,
        [.word (Field.signed.set
          (Field.remainderReg.set (Field.quotientReg.set 0 q.toUInt16) r.toUInt16)
          ("s".toList.isSuffixOf (Text.lower name.toList)).toUInt16), .ea ea .long]⟩ := by
  simp only [plan, hf, except_bind_eq_ok, Operands.require_eq_ok] at h
  obtain ⟨size, hsize, ea, ⟨hsrc, hin, hne⟩, h⟩ := h
  split at h
  · rename_i hrem
    simp only [except_bind_eq_ok, except_pure_eq_ok, Operands.requirePair_eq_ok] at h
    obtain ⟨_, ⟨r, q, hdst, hdiffer, rfl⟩, rfl⟩ := h
    exact ⟨size, ea, r, q, hsize, hsrc, hin, hne, .inl ⟨hrem, hdst, hdiffer⟩, rfl⟩
  · rename_i hrem
    simp only [except_bind_eq_ok, except_pure_eq_ok, Operands.requireDataReg_eq_ok] at h
    obtain ⟨_, ⟨q, hdst, rfl⟩, _, rfl, rfl⟩ := h
    exact ⟨size, ea, q, q, hsize, hsrc, hin, hne, .inr ⟨hrem, hdst, rfl⟩, rfl⟩

theorem of_plan_branch (hf : d.format = .branch) (h : d.plan name ops = .ok e) :
    ∃ off, ops.src = some (.relative off) ∧ ops.dst = none ∧
      (((∀ s, ops.size = some s → s = .byte) ∧ Format.offsetFits off .byte = true ∧
          ⟨Field.branchDisp.set d.opcode off.toInt8.toUInt8.toUInt16, []⟩ = e) ∨
        (∀ s, ops.size = some s → s = .word) ∧ Format.offsetFits off .word = true ∧
          ⟨d.opcode, [.word off.toInt16.toUInt16]⟩ = e) := by
  simp only [plan, hf, except_bind_eq_ok, Operands.requireTarget_eq_ok] at h
  obtain ⟨off, ⟨hdst, hsrc⟩, h⟩ := h
  refine ⟨off, hsrc, hdst, ?_⟩
  generalize ops.size = requested at h ⊢
  rcases requested with _ | _ | _ | _
  · simp only [pure_bind, except_guard_eq_ok, Bool.not_eq_true', Bool.not_eq_false] at h
    obtain ⟨hoff, h⟩ := h
    by_cases hshort : Format.offsetFits off .byte = true
    · rw [if_pos hshort] at h
      exact .inl ⟨fun _ hs => absurd hs.symm (Option.some_ne_none _), hshort, except_pure_eq_ok.1 h⟩
    · rw [if_neg hshort] at hoff h
      exact .inr ⟨fun _ hs => absurd hs.symm (Option.some_ne_none _), hoff, except_pure_eq_ok.1 h⟩
  · simp only [pure_bind, except_guard_eq_ok, Bool.not_eq_true', Bool.not_eq_false] at h
    exact .inl ⟨fun s hs => (Option.some.inj hs).symm, h.1, except_pure_eq_ok.1 h.2⟩
  · simp only [pure_bind, except_guard_eq_ok, Bool.not_eq_true', Bool.not_eq_false] at h
    exact .inr ⟨fun s hs => (Option.some.inj hs).symm, h.1, except_pure_eq_ok.1 h.2⟩
  · obtain ⟨_, hthrow, _⟩ := except_bind_eq_ok.1 h
    exact absurd hthrow except_throw_ne_ok

theorem of_plan_longBranch (h : d.plan name ops = .ok e) (hf : d.format = .longBranch) :
    ∃ off, ops.src = some (.relative off) ∧ ops.dst = none ∧
      (∀ s, ops.size = some s → s = .long) ∧ e = ⟨d.opcode, [.long off.toUInt32]⟩ := by
  simp only [plan, hf, except_bind_eq_ok, Operands.requireTarget_eq_ok] at h
  obtain ⟨off, ⟨hdst, hsrc⟩, h⟩ := h
  refine ⟨off, hsrc, hdst, ?_⟩
  generalize ops.size = requested at h ⊢
  rcases requested with _ | _ | _ | _
  · rw [except_guard_eq_ok] at h
    exact ⟨fun _ hs => absurd hs.symm (Option.some_ne_none _), (except_pure_eq_ok.1 h.2).symm⟩
  · exact absurd h except_throw_ne_ok
  · exact absurd h except_throw_ne_ok
  · rw [except_guard_eq_ok] at h
    exact ⟨fun s hs => (Option.some.inj hs).symm, (except_pure_eq_ok.1 h.2).symm⟩

/-- A trap that never traps has no data and no size, or data of its size. -/
theorem of_plan_tpf (h : d.plan name ops = .ok e) (hf : d.format = .tpf) :
    ops.dst = none ∧
      ((ops.size = none ∧ ops.src = none ∧ e = ⟨Field.lowReg.set d.opcode 4, []⟩) ∨
        ∃ v, ops.src = some (.immediate v) ∧
          (ops.size = some .word ∧ e = ⟨Field.lowReg.set d.opcode 2, [.word v.toUInt16]⟩ ∨
            ops.size = some .long ∧ e = ⟨Field.lowReg.set d.opcode 3, [.long v]⟩)) := by
  simp only [plan, hf, except_bind_eq_ok, Operands.forbid_eq_ok] at h
  obtain ⟨_, hdst, h⟩ := h
  refine ⟨hdst, ?_⟩
  generalize ops.size = requested at h ⊢
  rcases requested with _ | _ | _ | _
  · simp only [except_bind_eq_ok, except_pure_eq_ok, Operands.forbid_eq_ok] at h
    obtain ⟨_, hsrc, rfl⟩ := h
    exact .inl ⟨rfl, hsrc, rfl⟩
  · exact absurd h except_throw_ne_ok
  · simp only [except_bind_eq_ok, except_pure_eq_ok, Operands.requireImmediate_eq_ok] at h
    obtain ⟨_, ⟨v, hsrc, rfl⟩, rfl⟩ := h
    exact .inr ⟨v, hsrc, .inl ⟨rfl, rfl⟩⟩
  · simp only [except_bind_eq_ok, except_pure_eq_ok, Operands.requireImmediate_eq_ok] at h
    obtain ⟨_, ⟨v, hsrc, rfl⟩, rfl⟩ := h
    exact .inr ⟨v, hsrc, .inr ⟨rfl, rfl⟩⟩

end Definition

/-- An operand with zero for its value. -/
def Ea.shape : Ea → Ea
  | .disp r _ => .disp r 0
  | .index r _ ix => .index r 0 ix
  | .absShort _ => .absShort 0
  | .absLong _ => .absLong 0
  | .pcDisp _ => .pcDisp 0
  | .pcIndex _ ix => .pcIndex 0 ix
  | .immediate _ => .immediate 0
  | .relative _ => .relative 0
  | ea => ea

namespace Ea

variable {ea : Ea}

@[simp] theorem modes_shape : ea.shape.modes = ea.modes := by cases ea <;> rfl

@[simp] theorem extWords_shape {size : Size} : ea.shape.extWords size = ea.extWords size := by
  cases ea <;> rfl

theorem shape_eq_special {reg : SpecialReg} : ea.shape = .special reg ↔ ea = .special reg := by
  cases ea <;> simp [shape]

theorem shape_eq_regList {mask : UInt16} : ea.shape = .regList mask ↔ ea = .regList mask := by
  cases ea <;> simp [shape]

end Ea

/-- The extension words that an operand takes at a size; none if there is no operand. -/
def Operands.extWords (operand : Option Ea) (size : Size) : Nat :=
  operand.elim 0 (·.extWords size)

@[simp] theorem Operands.extWords_none {size : Size} : extWords none size = 0 := rfl

@[simp] theorem Operands.extWords_some {ea : Ea} {size : Size} :
    extWords (some ea) size = ea.extWords size := rfl

def Operands.shape (ops : Operands) : Operands :=
  ⟨ops.size, ops.src.map Ea.shape, ops.dst.map Ea.shape⟩

theorem Operands.shape_eq_iff {ops ops' : Operands} : ops.shape = ops'.shape ↔
    ops.size = ops'.size ∧ ops.src.map Ea.shape = ops'.src.map Ea.shape ∧
      ops.dst.map Ea.shape = ops'.dst.map Ea.shape := by
  simp [shape]

theorem Operands.extWords_le (o : Option Ea) (size : Size) : Operands.extWords o size ≤ 2 := by
  cases o with
  | none => exact Nat.zero_le _
  | some ea =>
    change ea.extWords size ≤ 2
    unfold Ea.extWords
    split
    case h_7 => split <;> decide
    all_goals decide

@[simp] theorem Operands.extWords_shape {operand : Option Ea} {size : Size} :
    extWords (operand.map Ea.shape) size = extWords operand size := by
  cases operand with
  | none => rfl
  | some ea => exact Ea.extWords_shape

namespace Definition

def extWords (d : Definition) (ops : Operands) : Nat :=
  let size := (ops.size.or d.defaultSize).getD .long
  match d.format with
  | .eaToData _ | .dataToEa | .eaToAddr _ | .immToData _ | .sizedEa _ | .move .. | .moveExtend =>
    Operands.extWords ops.src size + Operands.extWords ops.dst size
  | .quick _ => Operands.extWords ops.dst size
  | .bitInReg => Operands.extWords ops.dst .byte
  | .bitInWord => 1 + Operands.extWords ops.dst .byte
  | .mulLong | .divLong | .eaToList => 1 + Operands.extWords ops.src .long
  | .listToEa => 1 + Operands.extWords ops.dst .long
  | .lea | .pea | .jump => Operands.extWords ops.src .long
  | .toSpecial _ => Operands.extWords ops.src .word
  | .branch => if ops.size = some .byte then 0 else 1
  | .tpf =>
    match ops.size with
    | some .word => 1
    | some .long => 2
    | _ => 0
  | .link | .immWord | .control => 1
  | .longBranch | .loadStatus => 2
  | .dataPair | .dataReg _ | .shift | .moveq | .unlk | .bare | .vector | .fromSpecial _ | .toUsp
  | .fromUsp | .cachePush | .cacheTouch => 0

variable {d : Definition} {name : String} {ops ops' : Operands} {e : Encoding}

theorem extWords_shape : d.extWords ops.shape = d.extWords ops := by
  unfold extWords
  simp only [Operands.shape, Operands.extWords_shape]
  rfl

theorem getD_of_pickSize {requested : Option Size} {size : Size}
    (h : d.pickSize requested = .ok size) : (requested.or d.defaultSize).getD .long = size := by
  rcases pickSize_eq_ok.1 h with ⟨rfl, -⟩ | ⟨rfl, hdefault⟩
  · rfl
  · rw [Option.none_or, hdefault, Option.getD_some]

/-- A planned encoding is as long as the shape of its request tells, but for a branch that may pick the
size of its displacement. -/
theorem length_of_plan (hbranch : d.format = .branch → ops.size ≠ none)
    (h : d.plan name ops = .ok e) : e.length = 2 + 2 * d.extWords ops := by
  cases hf : d.format with
  | sizedEa isDst =>
    obtain ⟨size, ea, hsize, hsrc, hdst, -, -, -, rfl⟩ := of_plan_sizedEa h hf
    cases isDst with
    | true => simp [extWords, hf, hsrc, hdst, getD_of_pickSize hsize, Encoding.length, Ext.length]
    | false => simp [extWords, hf, hsrc, hdst, getD_of_pickSize hsize, Encoding.length, Ext.length]
  | branch =>
    -- without a size it would be the displacement that decides
    obtain ⟨size, hsize⟩ := Option.ne_none_iff_exists'.mp (hbranch hf)
    obtain ⟨off, -, -, ⟨hsame, -, rfl⟩ | ⟨hsame, -, rfl⟩⟩ := of_plan_branch hf h
    · simp [extWords, hf, hsize, hsame size hsize, Encoding.length]
    · simp [extWords, hf, hsize, hsame size hsize, Encoding.length, Ext.length]
  | quick data =>
    obtain ⟨size, v, x, ea, hsize, -, -, hdst, -, -, rfl⟩ := of_plan_quick h hf
    simp [extWords, hf, hdst, getD_of_pickSize hsize, Encoding.length, Ext.length]
  | shift =>
    obtain ⟨_, _, -, -, ⟨_, -, rfl⟩ | ⟨_, _, -, -, rfl⟩⟩ := of_plan_shift h hf
    · simp [extWords, hf, Encoding.length]
    · simp [extWords, hf, Encoding.length]
  | divLong =>
    obtain ⟨_, ea, _, _, -, hsrc, -, -, -, rfl⟩ := of_plan_divLong h hf
    simp [extWords, hf, hsrc, Encoding.length, Ext.length]
  | longBranch =>
    obtain ⟨off, -, -, -, rfl⟩ := of_plan_longBranch h hf
    simp [extWords, hf, Encoding.length, Ext.length]
  | tpf =>
    obtain ⟨-, ⟨hsize, -, rfl⟩ | ⟨v, -, ⟨hsize, rfl⟩ | ⟨hsize, rfl⟩⟩⟩ := of_plan_tpf h hf
    · simp [extWords, hf, hsize, Encoding.length]
    · simp [extWords, hf, hsize, Encoding.length, Ext.length]
    · simp [extWords, hf, hsize, Encoding.length, Ext.length]
  | _ =>
    simp only [plan, hf, except_bind_eq_ok, except_pure_eq_ok, except_guard_eq_ok,
      Operands.require_eq_ok, Operands.requireDataReg_eq_ok, Operands.requireAddrReg_eq_ok,
      Operands.requireImmediate_eq_ok, Operands.requireIndirect_eq_ok, Operands.forbid_eq_ok] at h
    grind [extWords, getD_of_pickSize, Encoding.length, Ext.length, Ea.extWords, Operands.extWords]

theorem extWords_le (d : Definition) (ops : Operands) : d.extWords ops ≤ 4 := by
  have hsrc := Operands.extWords_le ops.src
  have hdst := Operands.extWords_le ops.dst
  unfold extWords
  grind

end Definition

theorem Ea.length_words {ea : Ea} {size : Size} {ws : List UInt16} (h : ea.words size = .ok ws) :
    ws.length = ea.extWords size := by
  cases ea with
  | index _ d ix | pcIndex d ix =>
    obtain ⟨w, _, rfl⟩ := Ea.briefWords_eq_ok h
    rfl
  | immediate v => cases size <;> cases h <;> rfl
  | _ => cases h; rfl

theorem Ext.length_words {p : Ext} {ws : List UInt16} (h : p.words = .ok ws) :
    ws.length = p.length := by
  cases p with
  | word w | long v => cases h; rfl
  | ea e size => exact Ea.length_words h

theorem Ext.foldl_length {pieces : List Ext} {wss : List (List UInt16)}
    (h : pieces.mapM words = .ok wss) (n : Nat) :
    pieces.foldl (fun n piece => n + piece.length) n = n + wss.flatten.length := by
  induction pieces generalizing wss n with
  | nil =>
    cases h
    rfl
  | cons p rest ih =>
    rw [List.mapM_cons, except_bind_eq_ok] at h
    obtain ⟨ws, hws, h⟩ := h
    rw [except_bind_eq_ok] at h
    obtain ⟨rest', hrest, h⟩ := h
    cases h
    rw [List.foldl_cons, ih hrest, List.flatten_cons, List.length_append, length_words hws,
      Nat.add_assoc]

theorem Encoding.length_words {e : Encoding} {ws : List UInt16} (h : e.words = .ok ws) :
    e.length = 2 * ws.length := by
  rw [words, except_bind_eq_ok] at h
  obtain ⟨wss, hwss, h⟩ := h
  cases h
  rw [length, Ext.foldl_length hwss, List.length_cons]
  omega

end ColdFire
