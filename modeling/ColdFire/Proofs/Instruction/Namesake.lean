import ColdFire.Proofs.Instruction.Demand
import ColdFire.Proofs.Instruction.Regular
import ColdFire.Proofs.Instruction.Planned

namespace ColdFire

/-- What a form asks of an operand. -/
inductive Demand where
  | anything
  | absent
  | modes (allowed : Modes)
  | special (reg : SpecialReg)
  | list
deriving DecidableEq

namespace Modes

theorem eq_none_of_contains {s t m : Modes} (h : s.bits &&& t.bits = 0) (hs : s.contains m = true)
    (ht : t.contains m = true) : m = none := by
  have hs : s.bits &&& m.bits = m.bits := eq_of_beq hs
  have ht : t.bits &&& m.bits = m.bits := eq_of_beq ht
  have hm : m.bits = 0 := by
    rw [← ht, ← hs, UInt16.and_comm s.bits, UInt16.and_comm, UInt16.and_assoc, h, UInt16.and_zero]
  cases m
  cases hm
  rfl

end Modes

namespace Ea

variable {ea : Ea}

theorem modes_mem (ea : Ea) : ea.modes ∈ [Modes.none, .dn, .an, .ind, .postInc, .preDec, .disp,
    .index, .absShort, .absLong, .pcDisp, .pcIndex, .imm] := by
  cases ea <;> simp [modes]

theorem modes_eq_imm (h : Modes.imm.contains ea.modes = true) (hne : ea.modes ≠ .none) :
    ea.modes = .imm := by
  have hall : ∀ m ∈ [Modes.none, .dn, .an, .ind, .postInc, .preDec, .disp, .index, .absShort,
      .absLong, .pcDisp, .pcIndex, .imm], Modes.imm.contains m = true → m ≠ .none → m = .imm := by
    decide
  exact hall _ ea.modes_mem h hne

theorem modes_eq_disp (h : Modes.disp.contains ea.modes = true) (hne : ea.modes ≠ .none) :
    ea.modes = .disp := by
  have hall : ∀ m ∈ [Modes.none, .dn, .an, .ind, .postInc, .preDec, .disp, .index, .absShort,
      .absLong, .pcDisp, .pcIndex, .imm], Modes.disp.contains m = true → m ≠ .none → m = .disp := by
    decide
  exact hall _ ea.modes_mem h hne

end Ea

namespace Demand

def Meets (o : Option Ea) : Demand → Prop
  | anything => True
  | absent => o = none
  | modes allowed => ∃ ea, o = some ea ∧ allowed.contains ea.modes = true ∧ ea.modes ≠ .none
  | special reg => o = some (.special reg)
  | list => ∃ mask, o = some (.regList mask)

def excludes : Demand → Demand → Bool
  | anything, _ | _, anything => false
  | modes s, modes t => s.bits &&& t.bits == 0
  | d, e => d != e

theorem not_meets_of_excludes {d e : Demand} {o : Option Ea} (h : d.excludes e = true)
    (hd : d.Meets o) (he : e.Meets o) : False := by
  unfold excludes at h
  split at h
  · cases h
  · cases h
  · rename_i s t
    obtain ⟨ea, rfl, hs, hne⟩ := hd
    obtain ⟨_, hsame, ht, -⟩ := he
    cases hsame
    exact hne (Modes.eq_none_of_contains (eq_of_beq h) hs ht)
  · rename_i hany _ hmodes
    rw [bne_iff_ne] at h
    cases d <;> cases e <;> grind [Meets, Ea.modes]

theorem meets_shape {d : Demand} {o : Option Ea} : d.Meets (o.map Ea.shape) ↔ d.Meets o := by
  cases o with
  | none => exact Iff.rfl
  | some ea =>
    cases d with
    | anything | absent => simp [Meets]
    | modes allowed => simp [Meets]
    | special reg => simp [Meets, Ea.shape_eq_special]
    | list => simp [Meets, Ea.shape_eq_regList]

theorem meets_congr {d : Demand} {o o' : Option Ea} (h : o.map Ea.shape = o'.map Ea.shape)
    (hmeets : d.Meets o) : d.Meets o' :=
  meets_shape.1 (h ▸ meets_shape.2 hmeets)

section Require

variable {m which : String} {o : Option Ea}

@[grind ←]
theorem meets_anything : anything.Meets o := trivial

@[grind →]
theorem meets_of_require {allowed : Modes} {ea : Ea}
    (h : Operands.require m which o allowed = .ok ea) : (modes allowed).Meets o :=
  ⟨ea, Operands.require_eq_ok.1 h⟩

@[grind →]
theorem meets_of_forbid {u : Unit} (h : Operands.forbid m which o = .ok u) : absent.Meets o :=
  Operands.forbid_eq_ok.1 h

@[grind →]
theorem meets_of_requireDataReg {r : UInt16} (h : Operands.requireDataReg m which o = .ok r) :
    (modes .dn).Meets o := by
  obtain ⟨n, rfl, -⟩ := Operands.requireDataReg_eq_ok.1 h
  exact ⟨_, rfl, Modes.contains_self _, show Modes.dn ≠ .none by decide⟩

@[grind →]
theorem meets_of_requireAddrReg {r : UInt16} (h : Operands.requireAddrReg m which o = .ok r) :
    (modes .an).Meets o := by
  obtain ⟨n, rfl, -⟩ := Operands.requireAddrReg_eq_ok.1 h
  exact ⟨_, rfl, Modes.contains_self _, show Modes.an ≠ .none by decide⟩

@[grind →]
theorem meets_of_requireIndirect {r : UInt16} (h : Operands.requireIndirect m which o = .ok r) :
    (modes .ind).Meets o := by
  obtain ⟨n, rfl, -⟩ := Operands.requireIndirect_eq_ok.1 h
  exact ⟨_, rfl, Modes.contains_self _, show Modes.ind ≠ .none by decide⟩

@[grind →]
theorem meets_of_requireImmediate {v : UInt32} (h : Operands.requireImmediate m which o = .ok v) :
    (modes .imm).Meets o := by
  obtain ⟨n, rfl, -⟩ := Operands.requireImmediate_eq_ok.1 h
  exact ⟨_, rfl, Modes.contains_self _, show Modes.imm ≠ .none by decide⟩

@[grind →]
theorem meets_of_requireSpecial {reg : SpecialReg} {missing detail : String} {u : Unit}
    (h : Operands.requireSpecial m which o reg missing detail = .ok u) : (special reg).Meets o :=
  Operands.requireSpecial_eq_ok.1 h

@[grind →]
theorem meets_of_requireList {mask : UInt16} (h : Operands.requireList m o = .ok mask) :
    list.Meets o :=
  ⟨mask, Operands.requireList_eq_ok.1 h⟩

@[grind →]
theorem meets_of_requireTarget {ops : Operands} {off : Int32}
    (h : ops.requireTarget m = .ok off) : absent.Meets ops.dst :=
  (Operands.requireTarget_eq_ok.1 h).1

end Require

end Demand

namespace Definition

open Demand in
def srcDemand (d : Definition) : Demand :=
  match d.format with
  | .eaToData _ | .eaToAddr _ | .sizedEa false | .mulLong | .divLong | .move .. | .moveExtend
  | .eaToList | .lea | .pea | .jump | .toSpecial _ => modes d.srcModes
  | .dataToEa | .dataPair | .bitInReg => modes .dn
  | .immToData _ | .quick _ | .bitInWord | .moveq | .immWord | .vector | .loadStatus => modes .imm
  | .toUsp | .link => modes .an
  | .listToEa => list
  | .fromSpecial reg => special reg
  | .fromUsp => special .usp
  | .dataReg _ | .sizedEa true | .unlk | .bare | .cacheTouch => absent
  | .shift | .branch | .longBranch | .tpf | .control | .cachePush => anything

open Demand in
def dstDemand (d : Definition) : Demand :=
  match d.format with
  | .dataToEa | .quick _ | .sizedEa true | .bitInReg | .bitInWord | .move .. | .listToEa =>
    modes d.dstModes
  | .eaToData _ | .immToData _ | .dataPair | .dataReg _ | .shift | .mulLong | .moveq | .moveExtend
  | .fromSpecial _ => modes .dn
  | .eaToAddr _ | .lea | .unlk | .fromUsp => modes .an
  | .link => modes .imm
  | .cachePush | .cacheTouch => modes .ind
  | .eaToList => list
  | .toSpecial reg => special reg
  | .toUsp => special .usp
  | .sizedEa false | .pea | .branch | .longBranch | .tpf | .jump | .bare | .immWord | .vector
  | .loadStatus => absent
  | .divLong | .control => anything

variable {d : Definition} {name : String} {ops : Operands} {e : Encoding}

theorem src_meets (h : d.plan name ops = .ok e) : d.srcDemand.Meets ops.src := by
  cases hf : d.format
  case sizedEa isDst =>
    cases isDst <;> simp only [plan, hf, if_true, Bool.false_eq_true, if_false,
      except_bind_eq_ok, except_pure_eq_ok] at h <;> simp only [srcDemand, hf]
    all_goals grind
  all_goals
    simp only [plan, hf, except_bind_eq_ok] at h
    simp only [srcDemand, hf]
    grind

theorem dst_meets (h : d.plan name ops = .ok e) : d.dstDemand.Meets ops.dst := by
  cases hf : d.format
  case sizedEa isDst =>
    cases isDst <;> simp only [plan, hf, if_true, Bool.false_eq_true, if_false,
      except_bind_eq_ok, except_pure_eq_ok] at h <;> simp only [dstDemand, hf]
    all_goals grind
  all_goals
    simp only [plan, hf, except_bind_eq_ok] at h
    simp only [dstDemand, hf]
    grind [except_throw_ne_ok, except_bind_eq_ok]

/-- Whether no request suits two forms: their sizes differ, or what they ask of an operand does. The
one pair beyond the rule for pairs is apart from the pairs within it. -/
def clashes (d e : Definition) : Bool :=
  (d.format.sizes.all fun size => size ∉ e.format.sizes) ||
    d.srcDemand.excludes e.srcDemand || d.dstDemand.excludes e.dstDemand ||
    match d.format, e.format with
    | .move _ false, .move _ true => true
    | _, _ => false

theorem bitSize_mem (ea : Ea) : ea.bitSize ∈ [Size.byte, .long] := by
  cases ea <;> simp [Ea.bitSize]

theorem size_mem (hd : d.Regular) (h : d.plan name ops = .ok e) (hsized : d.format.sizes ≠ [])
    {size : Size} (hsize : ops.size = some size) : size ∈ d.format.sizes := by
  have hpick {picked : Size} (hp : d.pickSize ops.size = .ok picked) : size ∈ d.format.sizes := by
    rw [pickSize_eq_ok, hsize, hd.sizes] at hp
    rcases hp with ⟨_, hmem⟩ | ⟨hnone, _⟩
    · grind
    · cases hnone
  -- the bit forms check the size by their operand, branches for themselves, and the others pick one
  cases hf : d.format with
  | bitInReg =>
    simp only [plan, hf, except_bind_eq_ok, Operands.checkBitSize_eq_ok] at h
    obtain ⟨_, _, dst, _, _, hbit, _⟩ := h
    rw [hbit size hsize]
    exact bitSize_mem dst
  | bitInWord =>
    simp only [plan, hf, except_bind_eq_ok, except_guard_eq_ok,
      Operands.checkBitSize_eq_ok] at h
    obtain ⟨_, _, _, dst, _, _, hbit, _⟩ := h
    rw [hbit size hsize]
    exact bitSize_mem dst
  | branch | longBranch | tpf =>
    simp only [plan, hf, except_bind_eq_ok, hsize] at h
    cases size with
    | byte | word | long => grind [Format.sizes, except_bind_eq_ok, except_throw_ne_ok]
  | lea | pea | unlk | jump | bare | immWord | vector | cachePush | cacheTouch | loadStatus =>
    exact absurd (hf ▸ rfl) hsized
  | _ =>
    simp only [plan, hf, except_bind_eq_ok] at h
    exact hf ▸ hpick h.choose_spec.1

theorem movePair_of_plan {size : Size} (hf : d.format = .move size false)
    (h : d.plan name ops = .ok e) : ∃ src dst, ops.src = some src ∧ ops.dst = some dst ∧
      Modes.movePair src.modes dst.modes = true := by
  simp only [plan, hf, except_bind_eq_ok, except_guard_eq_ok, Operands.require_eq_ok] at h
  obtain ⟨_, _, src, ⟨hsrc, _⟩, dst, ⟨hdst, _⟩, _, _, hpair, _⟩ := h
  exact ⟨src, dst, hsrc, hdst, by simpa using hpair⟩

/-- No requests of one shape with a size suit two forms that clash. -/
theorem not_plan_of_clashes {d' : Definition} {ops' : Operands} {e' : Encoding} (hd : d.Regular)
    (hd' : d'.Regular) (hclash : d.clashes d' = true) (hsized : d.format.sizes ≠ [])
    (hsized' : d'.format.sizes ≠ []) (hshape : ops.shape = ops'.shape) (hsize : ops.size ≠ none)
    (h : d.plan name ops = .ok e) (h' : d'.plan name ops' = .ok e') : False := by
  obtain ⟨size, hsize⟩ := Option.ne_none_iff_exists'.mp hsize
  obtain ⟨hsame, hsrcs, hdsts⟩ := Operands.shape_eq_iff.1 hshape
  simp only [clashes, Bool.or_eq_true] at hclash
  rcases hclash with ((hsizes | hsrc) | hdst) | hmove
  · have hmem := List.all_eq_true.mp hsizes size (size_mem hd h hsized hsize)
    exact of_decide_eq_true hmem (size_mem hd' h' hsized' (hsame ▸ hsize))
  · exact Demand.not_meets_of_excludes hsrc (Demand.meets_congr hsrcs (src_meets h)) (src_meets h')
  · exact Demand.not_meets_of_excludes hdst (Demand.meets_congr hdsts (dst_meets h)) (dst_meets h')
  · split at hmove
    · rename_i _ _ size₁ size₂ hf hf'
      obtain ⟨src, dst, hsrc, hdst, hpair⟩ := movePair_of_plan hf h
      have hmodes := hd'.modes
      rw [hf', Format.modesFit, decide_eq_true_eq] at hmodes
      have hsrc' := Demand.meets_congr hsrcs.symm (src_meets h')
      have hdst' := Demand.meets_congr hdsts.symm (dst_meets h')
      simp only [srcDemand, dstDemand, hf', hmodes, hsrc, hdst, Demand.Meets, Option.some.injEq,
        exists_eq_left'] at hsrc' hdst'
      rw [Ea.modes_eq_imm hsrc'.1 hsrc'.2, Ea.modes_eq_disp hdst'.1 hdst'.2] at hpair
      exact absurd hpair (by decide)
    · cases hmove

end Definition

end ColdFire
