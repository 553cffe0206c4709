import ColdFire.Instruction.Decode
import ColdFire.Proofs.Instruction.Decoded
import ColdFire.Proofs.Instruction.Opword
import ColdFire.Proofs.Instruction.Planned
import ColdFire.Proofs.Instruction.Reencode.Basic

namespace ColdFire

def Operands.RegistersExist (ops : Operands) : Prop :=
  (∀ ea, ops.src = some ea → ea.RegistersExist) ∧ ∀ ea, ops.dst = some ea → ea.RegistersExist

/-- The size of the field for an immediate operand, given the size of the instruction. Data in the
opcode word count as long: they are never cut. -/
def Format.immediateSize (f : Format) (size : Option Size) : Size :=
  match f with
  | bitInReg | bitInWord => .byte
  | immWord | loadStatus => .word
  | _ => size.getD .long

/-- What a format gives back of a request: the operands, with immediates cut to their field, and the
size if both have one. -/
structure Operands.Returned (f : Format) (ops ops' : Operands) : Prop where
  src : ops'.src = ops.src.map (Ea.reduced (f.immediateSize ops'.size))
  dst : ops'.dst = ops.dst.map (Ea.reduced (f.immediateSize ops'.size))
  size : ∀ s t, ops.size = some s → ops'.size = some t → s = t

theorem Operands.size_of_none {requested returned : Option Size} (h : returned = none) (s t : Size)
    (_ : requested = some s) (ht : returned = some t) : s = t := by
  rw [h] at ht
  cases ht

namespace Ea

variable {ea : Ea} {x w : UInt16} {size : Size}

@[simp] theorem reduced_long : ea.reduced .long = ea := by
  cases ea with
  | immediate v => rw [reduced, Size.and_mask_long]
  | _ => rfl

/-- The low six bits of a word are the field of an operand. -/
structure InLow (ea : Ea) (w : UInt16) : Prop where
  field : ea.field? = some (Field.eaMode.get w, Field.eaReg.get w)
  mode : Modes.ofField? (Field.eaMode.get w) (Field.eaReg.get w) = some ea.modes

variable {s : WordSource} {c : Cursor} {j : Nat}

theorem readLow_of_standsIn (hregs : ea.RegistersExist) (hlow : ea.InLow s.opcode)
    (h : ea.StandsIn size s c.consumed j) :
    ∃ mark, readLow size s c = .ok (ea.reduced size) ⟨j, mark⟩ := by
  obtain ⟨ws, hws, hs, rfl⟩ := h
  exact readLow_of_field hregs hlow.field hws hs

theorem readImmediate_of_standsIn {v : UInt32}
    (h : (immediate v).StandsIn size s c.consumed j) :
    readImmediate size s c = .ok ((immediate v).reduced size) ⟨j, c.pcMark⟩ := by
  obtain ⟨ws, hws, hs, rfl⟩ := h
  exact readImmediate_of_words hws hs

section Or

variable (hregs : ea.RegistersExist) (hne : ea.modes ≠ .none) (hx : x &&& 0x003F = 0)

include hregs hne hx

theorem inLow_or : ea.InLow (x ||| ea.lowField) := by
  obtain ⟨mode, reg, hfield, hm, hr, hmode⟩ := field_of_modes hregs hne
  have hm : mode.toNat < 2 ^ Field.eaMode.width := hm
  have hr : reg.toNat < 2 ^ Field.eaReg.width := hr
  rw [or_lowField hx hfield hm hr]
  have hgetReg : Field.eaReg.get (Field.eaReg.set (Field.eaMode.set x mode) reg) = reg :=
    Field.get_set_of_lt (by decide) _ hr
  have hgetMode : Field.eaMode.get (Field.eaReg.set (Field.eaMode.set x mode) reg) = mode := by
    rw [Field.get_set_of_disjoint (by decide) (by decide) (by decide),
      Field.get_set_of_lt (by decide) _ hm]
  exact ⟨by rw [hgetMode, hgetReg]; exact hfield, by rw [hgetMode, hgetReg]; exact hmode⟩

theorem or_lowField_and {m : UInt16} (hm : m &&& 0x003F = 0) :
    (x ||| ea.lowField) &&& m = x &&& m := by
  obtain ⟨mode, reg, hfield, hmode, hreg, -⟩ := field_of_modes hregs hne
  have hapart (f : Field) (hf : f.mask &&& 0x003F = f.mask) : f.mask &&& m = 0 := by
    rw [UInt16.and_comm]
    exact and_eq_zero_of_and_eq hm (by rw [UInt16.and_comm]; exact hf)
  rw [or_lowField hx hfield hmode hreg,
    Field.set_and_of_disjoint (by decide) (hapart .eaReg (by decide)),
    Field.set_and_of_disjoint (by decide) (hapart .eaMode (by decide))]

theorem get_or_lowField {f : Field} (hf : f.InWord) (hlow : 6 ≤ f.shift) :
    f.get (x ||| ea.lowField) = f.get x := by
  obtain ⟨mode, reg, hfield, hmode, hreg, -⟩ := field_of_modes hregs hne
  have hreg' : Field.eaReg.Disjoint f := .inl (Nat.le_trans (by decide) hlow)
  have hmode' : Field.eaMode.Disjoint f := .inl (Nat.le_trans (by decide) hlow)
  rw [or_lowField hx hfield hmode hreg, Field.get_set_of_disjoint (by decide) hf hreg',
    Field.get_set_of_disjoint (by decide) hf hmode']

end Or

end Ea

namespace Definition

variable {d : Definition} {s : WordSource} {w : UInt16} {size : Size} {ea : Ea} {n : Nat}

/-- What a definition calls an instruction that was requested as `name`: just that, in lower case, if
the format names itself, and its mnemonic if not. -/
def Calls (d : Definition) (name name' : String) : Prop :=
  if d.format.ownNames = [] then name' = d.mnemonic else name'.toList = Text.lower name.toList

/-- A definition reads back `ops`, which were requested under `name`, from an opcode word that it claims
and `n` extension words. -/
structure Rereads (d : Definition) (s : WordSource) (name : String) (ops : Operands) (n : Nat) :
    Prop where
  fits : d.fits s.opcode = true
  accepts : d.format.accepts s.opcode = true
  read : ∃ name' ops' mark, d.format.read d.mnemonic s .start = .ok (name', ops') ⟨n, mark⟩ ∧
    ops.Returned d.format ops' ∧ d.Calls name name'

theorem rereads_of {name : String} {ops ops' : Operands} {mark : Nat}
    (hfits : d.fits s.opcode = true) (haccepts : d.format.accepts s.opcode = true)
    (hown : d.format.ownNames = [])
    (hread : d.format.read d.mnemonic s .start = .ok (d.mnemonic, ops') ⟨n, mark⟩)
    (hreturned : ops.Returned d.format ops') : d.Rereads s name ops n :=
  ⟨hfits, haccepts, _, ops', mark, hread, hreturned, by rw [Calls, if_pos hown]⟩

theorem Regular.of_pickSize (hd : d.Regular) {requested : Option Size}
    (h : d.pickSize requested = .ok size) :
    size ∈ d.format.sizes ∧ ∀ s, requested = some s → s = size := by
  rw [pickSize_eq_ok] at h
  rcases h with ⟨rfl, hmem⟩ | ⟨rfl, hdefault⟩
  · exact ⟨hd.sizes ▸ hmem, fun s hs => (Option.some.inj hs).symm⟩
  · have hmem := hd.defaultSize
    rw [hdefault, Option.all_some, decide_eq_true_eq] at hmem
    exact ⟨hmem, fun _ hs => absurd hs.symm (Option.some_ne_none _)⟩

theorem Regular.of_pickSize_single (hd : d.Regular) (size : Size) {requested : Option Size} {picked : Size}
    (h : d.pickSize requested = .ok picked) (hsizes : d.format.sizes = [size]) :
    size = picked ∧ ∀ s t, requested = some s → some size = some t → s = t := by
  obtain ⟨hmem, hsame⟩ := hd.of_pickSize h
  rw [hsizes] at hmem
  obtain rfl := List.mem_singleton.mp hmem
  exact ⟨rfl, fun s t hs ht => (hsame s hs).trans (Option.some.inj ht)⟩

theorem fits_of (hd : d.Regular) (hagree : AgreeOn (~~~d.format.operandMask) d.opcode w)
    (hex : ∀ e ∈ d.format.exclusions, w &&& e.1 ≠ e.2)
    (hslot : d.Admits d.format.slot w) :
    d.fits w = true := by
  rw [fits_iff, hd.operandMask, hd.exclusions, hd.slot]
  exact ⟨hagree, hex, hslot⟩

theorem lowModeIn_of {modes : Modes} (hlow : ea.InLow w) (h : modes.contains ea.modes = true) :
    lowModeIn modes w = true := by
  rw [lowModeIn, hlow.mode]
  exact h

theorem fits_of_none (hd : d.Regular) (hagree : AgreeOn (~~~d.format.operandMask) d.opcode w)
    (hex : d.format.exclusions = []) (hslot : d.format.slot = .none) : d.fits w = true := by
  refine fits_of hd hagree (by rw [hex]; exact List.forall_mem_nil _) ?_
  rw [hslot]
  trivial

theorem fits_of_src (hd : d.Regular) (hagree : AgreeOn (~~~d.format.operandMask) d.opcode w)
    (hex : d.format.exclusions = []) (hslot : d.format.slot = .src) (hlow : ea.InLow w)
    (h : d.srcModes.contains ea.modes = true) : d.fits w = true := by
  refine fits_of hd hagree (by rw [hex]; exact List.forall_mem_nil _) ?_
  rw [hslot]
  exact lowModeIn_of hlow h

theorem fits_of_dst (hd : d.Regular) (hagree : AgreeOn (~~~d.format.operandMask) d.opcode w)
    (hex : d.format.exclusions = []) (hslot : d.format.slot = .dst) (hlow : ea.InLow w)
    (h : d.dstModes.contains ea.modes = true) : d.fits w = true := by
  refine fits_of hd hagree (by rw [hex]; exact List.forall_mem_nil _) ?_
  rw [hslot]
  exact lowModeIn_of hlow h

section Opword

variable (hd : d.Regular)

include hd

theorem of_highReg_ea {x : UInt16} (hmask : d.format.operandMask = 0x0E3F) (hx : x.toNat < 2 ^ 3)
    (hregs : ea.RegistersExist) (hne : ea.modes ≠ .none)
    (hop : Field.highReg.set d.opcode x ||| ea.lowField = w) :
    AgreeOn (~~~d.format.operandMask) d.opcode w ∧ Field.highReg.get w = x ∧ ea.InLow w := by
  have hroom : Field.highReg.set d.opcode x &&& 0x003F = 0 := by
    rw [Field.set_and_of_disjoint (by decide) (by decide)]
    exact opcode_and hd (by rw [hmask]; decide)
  rw [← hop]
  refine ⟨?_, ?_, Ea.inLow_or hregs hne hroom⟩
  · rw [AgreeOn, hmask, Ea.or_lowField_and hregs hne hroom (by decide),
      Field.set_and_of_disjoint (by decide) (by decide)]
  · rw [Ea.get_or_lowField hregs hne hroom (by decide) (by decide),
      Field.get_set_of_lt (by decide) _ hx]

theorem of_ea (hmask : d.format.operandMask = 0x003F) (hregs : ea.RegistersExist)
    (hne : ea.modes ≠ .none) (hop : d.opcode ||| ea.lowField = w) :
    AgreeOn (~~~d.format.operandMask) d.opcode w ∧ ea.InLow w := by
  have hroom : d.opcode &&& 0x003F = 0 := opcode_and hd (by rw [hmask]; decide)
  rw [← hop]
  refine ⟨?_, Ea.inLow_or hregs hne hroom⟩
  rw [AgreeOn, hmask, Ea.or_lowField_and hregs hne hroom (by decide)]

omit hd in
theorem of_lowReg {r : UInt8} (hmask : d.format.operandMask = 0x0007) (hr : r < 8)
    (hop : Field.lowReg.set d.opcode r.toUInt16 = w) :
    AgreeOn (~~~d.format.operandMask) d.opcode w ∧ (Field.lowReg.get w).toUInt8 = r := by
  have hr : r.toUInt16.toNat < 2 ^ Field.lowReg.width := toNat_toUInt16_lt hr
  rw [← hop]
  refine ⟨?_, ?_⟩
  · rw [AgreeOn, hmask, Field.set_and_of_disjoint (by decide) (by decide)]
  · rw [Field.get_set_of_lt (by decide) _ hr, UInt8.toUInt8_toUInt16]

end Opword

end Definition

end ColdFire
