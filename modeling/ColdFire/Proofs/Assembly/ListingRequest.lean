import ColdFire.Proofs.Assembly.ListingLine
import ColdFire.Proofs.Assembly.Reach
import ColdFire.Proofs.Registry.DecodeEncode

namespace ColdFire

open Assembly

namespace RegList

variable {mask : UInt16} {i : Nat}

theorem eq_of_members (h : members mask = [i]) : i < 16 ∧ 1 <<< UInt16.ofNat i = mask := by
  refine ⟨(mem_members.1 (h ▸ List.mem_singleton_self i)).1, ?_⟩
  rw [← maskOf_members mask, h]
  exact (UInt16.or_zero).symm

end RegList

namespace Ea

/-- The operand comes back when the assembler takes what it has read in its text, under a name. Under
`movem`, and only there, a register is a list; a short address keeps its value if it has no sign. -/
def Returns (mnemonic : String) : Ea → Prop
  | dataReg _ | addrReg _ => mnemonic ≠ "movem"
  | regList _ => mnemonic = "movem"
  | absShort v => 0 ≤ v
  | relative _ => Registry.full.isBranch mnemonic = true
  | _ => True

end Ea

namespace Assembler

variable {a : Assembler} {scope : Scope} {mnemonic : String} {pc : UInt32} {mask : UInt16} {v : Int}

theorem eval_ofInt : scope.eval (.ofInt v) = .ok ⟨.ofInt v, true⟩ := Scope.eval_of_no_symbol rfl

theorem evalWithin_ofInt {low high : Int64} {what : String}
    (h : low ≤ .ofInt v ∧ .ofInt v ≤ high) :
    scope.evalWithin (.ofInt v) low high what = .ok ⟨.ofInt v, true⟩ :=
  Scope.evalWithin_eq_ok.2 ⟨eval_ofInt, h⟩

theorem within_word (d : Int16) : -0x8000 ≤ Int64.ofInt d.toInt ∧ Int64.ofInt d.toInt ≤ 0x7FFF := by
  have hlow := d.le_toInt
  have hhigh := d.toInt_lt
  rw [within_word_iff, Int64.toInt_ofInt_of_le (by omega) (by omega)]
  omega

theorem within_byte (d : Int8) : -0x80 ≤ Int64.ofInt d.toInt ∧ Int64.ofInt d.toInt ≤ 0x7F := by
  have hlow := d.le_toInt
  have hhigh := d.toInt_lt
  rw [within_byte_iff, Int64.toInt_ofInt_of_le (by omega) (by omega)]
  omega

theorem within_long (v : UInt32) :
    0 ≤ Int64.ofInt v.toNat ∧ Int64.ofInt v.toNat ≤ 0xFFFFFFFF := by
  have hlt := v.toNat_lt
  rw [Int64.le_iff_toInt_le, Int64.le_iff_toInt_le, Int64.toInt_ofInt_of_le (by omega) (by omega)]
  change 0 ≤ _ ∧ _ ≤ (0xFFFFFFFF : Int)
  omega

theorem displacement_ofInt : displacement scope pc (.ofInt v) = .ok ⟨.ofInt v, true⟩ := by
  rw [displacement, eval_ofInt]
  rfl

theorem lower_regList :
    a.lower scope "movem" pc (RegList.written mask) = .ok (.regList mask, true) := by
  have hdata : ∀ i < 8, (UInt8.ofNat i).toUInt16 = UInt16.ofNat i := by decide
  have haddr : ∀ i < 16, 8 ≤ i → 8 + (UInt8.ofNat (i - 8)).toUInt16 = UInt16.ofNat i := by decide
  unfold RegList.written
  split
  · rename_i i hi
    obtain ⟨hlt, rfl⟩ := RegList.eq_of_members hi
    split
    · rename_i hbank
      rw [lower, if_pos rfl, hdata i hbank]
    · rename_i hbank
      rw [lower, if_pos rfl, haddr i hlt (Nat.le_of_not_lt hbank)]
  · rw [lower]

theorem fitsShort_toNat (v : Int16) :
    (0 ≤ v → (v.toUInt16.toNat : Int) = v.toInt) ∧ (fitsShort (.ofInt v.toUInt16.toNat) = true ↔ 0 ≤ v) := by
  have hlow := v.le_toInt
  have hhigh := v.toInt_lt
  have hnat : (v.toUInt16.toNat : Int) = if 0 ≤ v.toInt then v.toInt else v.toInt + 0x10000 := by
    change (v.toBitVec.toNat : Int) =
      if 0 ≤ v.toBitVec.toInt then v.toBitVec.toInt else v.toBitVec.toInt + 0x10000
    have hlt := v.toBitVec.isLt
    rw [BitVec.toInt_eq_toNat_cond]
    by_cases hsign : 2 * v.toBitVec.toNat < 2 ^ 16
    · rw [if_pos hsign, if_pos (by omega)]
    · rw [if_neg hsign, if_neg (by omega)]
      omega
  have hlt := v.toUInt16.toNat_lt
  have hexact : (Int64.ofInt v.toUInt16.toNat).toInt = v.toUInt16.toNat :=
    Int64.toInt_ofInt_of_le (by omega) (by omega)
  rw [fitsShort_eq, hexact, Int16.le_iff_toInt_le, Int16.toInt_zero, hnat]
  split
  · omega
  · omega

theorem lower_absShort {v : Int16} (h : 0 ≤ v) :
    a.lower scope mnemonic pc (.absShort (.ofInt v.toUInt16.toNat)) = .ok (.absShort v, true) := by
  obtain ⟨hsame, hfits⟩ := fitsShort_toNat v
  rw [lower, eval_ofInt]
  refine except_ite_throw_eq_ok.2 ⟨hfits.2 h, ?_⟩
  dsimp only
  rw [hsame h, Int64.toInt16_ofInt, Int16.ofInt_toInt]
  rfl

theorem nonneg_of_lower_absShort {v : Int16} {r : Ea × Bool}
    (h : a.lower scope mnemonic pc (.absShort (.ofInt v.toUInt16.toNat)) = .ok r) : 0 ≤ v := by
  rw [lower, eval_ofInt] at h
  exact (fitsShort_toNat v).2.1 (except_ite_throw_eq_ok.1 h).1

/-- The assembler takes the text of an operand for the operand. -/
theorem lower_written {ea : Ea} (h : ea.Legible) (hreturns : ea.Returns mnemonic) :
    a.lower scope mnemonic pc ea.written = .ok (ea, true) := by
  cases ea with
  | dataReg _ | addrReg _ =>
    rw [Ea.written, lower, if_neg hreturns]
  | indirect _ | postInc _ | preDec _ | regPair _ _ | special _ => rfl
  | disp r d =>
    rw [Ea.written, lower, evalWithin_ofInt (within_word d)]
    change Except.ok (Ea.disp r (Int64.ofInt d.toInt).toInt16, true) = _
    rw [Int64.toInt16_ofInt, Int16.ofInt_toInt]
  | index r d ix =>
    rw [Ea.written, lower, evalWithin_ofInt (within_byte d)]
    change Except.ok (Ea.index r (Int64.ofInt d.toInt).toInt8 ix, true) = _
    rw [Int64.toInt8_ofInt, Int8.ofInt_toInt]
  | absShort v => exact lower_absShort hreturns
  | absLong v =>
    rw [Ea.written, lower, eval_ofInt]
    change Except.ok (Ea.absLong (Value.mk (.ofInt v.toNat) true).long, true) = _
    rw [Value.long_of rfl, ofInt_toNat]
  | pcDisp d =>
    rw [Ea.written, lower, displacement_ofInt]
    refine except_ite_throw_eq_ok.2 ⟨within_word d, ?_⟩
    change Except.ok (Ea.pcDisp (Int64.ofInt d.toInt).toInt16, true) = _
    rw [Int64.toInt16_ofInt, Int16.ofInt_toInt]
  | pcIndex d ix =>
    rw [Ea.written, lower, displacement_ofInt]
    refine except_ite_throw_eq_ok.2 ⟨within_byte d, ?_⟩
    change Except.ok (Ea.pcIndex (Int64.ofInt d.toInt).toInt8 ix, true) = _
    rw [Int64.toInt8_ofInt, Int8.ofInt_toInt]
  | immediate v =>
    rw [Ea.written, lower, eval_ofInt]
    obtain ⟨hlow, hhigh⟩ := within_long v
    refine except_ite_throw_eq_ok.2 ⟨⟨Int64.le_trans (by decide) hlow, hhigh⟩, ?_⟩
    change Except.ok (Ea.immediate (Value.mk (.ofInt v.toNat) true).long, true) = _
    rw [Value.long_of rfl, ofInt_toNat]
  | regList mask =>
    obtain rfl : mnemonic = "movem" := hreturns
    exact lower_regList
  | relative _ => exact h.elim

theorem lower_relative {d : Decoded} {off : Int32} (hbranch : a.registry.isBranch mnemonic = true) :
    a.lower scope mnemonic d.address (d.written (.relative off)) = .ok (.relative off, true) := by
  have htarget : (distance d.address (.ofInt (d.address + 2 + off.toUInt32).toNat)).toInt32.toUInt32 =
      off.toUInt32 := by
    rw [← UInt32.add_right_inj (d.address + 2), add_distance, ofInt_toNat]
  have hoff : (distance d.address (.ofInt (d.address + 2 + off.toUInt32).toNat)).toInt32 = off :=
    Int32.toBitVec_inj.mp (congrArg UInt32.toBitVec htarget)
  rw [Decoded.written, lower, if_pos hbranch, lowerTarget, eval_ofInt]
  change Except.ok (Ea.relative (distance _ _).toInt32, true) = _
  rw [hoff]

theorem mapM_lower_written {tier : Tier} {d : Decoded}
    (h : ∀ ea ∈ d.operands, Decoded.Shows ea ∧ ea.Returns d.mnemonic) :
    (d.operands.map d.written).mapM ((Assembler.mk .full tier).lower scope d.mnemonic d.address) =
      .ok (d.operands.map (·, true)) := by
  rw [Image.mapM_eq_ok, List.forall₂_map_left_iff, List.forall₂_map_right_iff, List.forall₂_same]
  intro ea hea
  obtain ⟨hlegible | ⟨off, rfl⟩, hreturns⟩ := h ea hea
  · rw [Decoded.written_of_legible hlegible]
    exact lower_written hlegible hreturns
  · exact lower_relative hreturns

theorem arrange_of_choose {tier : Tier} {ops : Operands} {x : Entry} {e : Encoding}
    (h : Registry.full.choose mnemonic ops tier = .ok (x, e)) :
    (Assembler.mk .full tier).arrange mnemonic ops.size (ops.src.toList ++ ops.dst.toList) =
      .ok ops := by
  have hselect : Registry.full.select mnemonic ops tier = .ok x := Registry.select_eq_ok.2 ⟨e, h⟩
  obtain ⟨size, src, dst⟩ := ops
  match src, dst with
  | none, none | some src, some dst => rfl
  | some src, none =>
    change arrangeOne _ _ _ _ = _
    simp only [arrangeOne, hselect]
  | none, some dst =>
    change arrangeOne _ _ _ _ = _
    simp only [arrangeOne, hselect]
    split
    · exact (Registry.not_select_both ‹_› hselect).elim
    · rfl

end Assembler

namespace Catalogue

theorem mnemonic_of_list : ∀ d ∈ all, d.format = .listToEa ∨ d.format = .eaToList →
    d.mnemonic = "movem" :=
  List.all_iff_forall_prop.mp rfl

theorem operation_of_movem : ∀ d ∈ all, "movem" ∈ d.names →
    d.operation = .loadList ∨ d.operation = .storeList :=
  List.all_iff_forall_prop.mp rfl

theorem isBranch_of_relative : ∀ d ∈ all, d.format = .branch ∨ d.format = .longBranch →
    d.isBranch = true :=
  List.all_iff_forall_prop.mp rfl

theorem alwaysSized_of_isBranch : ∀ d ∈ all, ∀ e ∈ all, d.isBranch = true →
    (d.names.any fun name => e.names.contains name) = true → e.format.alwaysSized = true := by
  have hbranches : ∀ d ∈ all, d.isBranch = true → ∀ e ∈ all, e.format.alwaysSized = false →
      (d.names.any fun name => e.names.contains name) = false := by decide +kernel
  intro d hd e he hbranch hshares
  by_contra hsized
  rw [hbranches d hd hbranch e he (Bool.eq_false_iff.mpr hsized)] at hshares
  cases hshares

end Catalogue

namespace Demand

variable {allowed : Modes} {ea : Ea}

theorem isRegister_of_modes (hdata : allowed.contains .dn = false)
    (haddr : allowed.contains .an = false) (h : (modes allowed).Meets (some ea)) :
    ea.isRegister = false := by
  obtain ⟨_, ⟨⟩, hin, -⟩ := h
  cases ea with
  | dataReg _ => exact absurd (hdata.symm.trans hin) Bool.false_ne_true
  | addrReg _ => exact absurd (haddr.symm.trans hin) Bool.false_ne_true
  | _ => rfl

theorem isRegister_of_list (h : list.Meets (some ea)) : ea.isRegister = false := by
  obtain ⟨_, ⟨⟩⟩ := h
  rfl

end Demand

theorem Operation.isRegister_of_takes {op : Operation} {ops : Operands}
    (hop : op = .loadList ∨ op = .storeList) (h : op.Takes ops) :
    ops.All fun ea => ea.isRegister = false := by
  obtain ⟨hsrc, hdst, -, -⟩ := h
  rcases hop with rfl | rfl
  · refine ⟨fun ea hea => ?_, fun ea hea => ?_⟩
    · exact Demand.isRegister_of_modes (by decide) (by decide) (hea ▸ hsrc)
    · exact Demand.isRegister_of_list (hea ▸ hdst)
  · refine ⟨fun ea hea => ?_, fun ea hea => ?_⟩
    · exact Demand.isRegister_of_list (hea ▸ hsrc)
    · exact Demand.isRegister_of_modes (by decide) (by decide) (hea ▸ hdst)

namespace Ea

/-- A listing shows the operand: a displacement of zero has no encoding, an empty list no text, and some
control registers no name. -/
def IsShown : Ea → Prop
  | relative off => off ≠ 0
  | regList mask => mask ≠ 0
  | special (.control code) => (ControlRegister.name? code).isSome = true
  | _ => True

end Ea

theorem Operands.All.mem {P : Ea → Prop} {d : Decoded} (h : d.toOperands.All P) :
    ∀ ea ∈ d.operands, P ea := by
  intro ea hea
  rcases List.mem_append.mp hea with hsrc | hdst
  · exact h.src ea (Option.mem_toList.mp hsrc)
  · exact h.dst ea (Option.mem_toList.mp hdst)

theorem Decoded.src_ne_zero {d : Decoded} (hshown : ∀ ea ∈ d.operands, ea.IsShown) :
    d.src ≠ some (.relative 0) := by
  intro hsrc
  have hmem : Ea.relative 0 ∈ d.operands := List.mem_append_left _ (Option.mem_toList.mpr hsrc)
  exact hshown _ hmem rfl

namespace Registry

variable {s : WordSource} {c : Cursor} {tier : Tier} {x : Entry} {d : Decoded}
  (hlookup : full.lookup s.opcode tier = some x) (hdecode : x.1.decode s .start = .ok d c)

include hlookup hdecode

theorem mem_names_of_decode : d.mnemonic ∈ x.1.names :=
  mem_names_of_read (of_lookup hlookup).1 (Definition.read_of_decode hdecode).1

theorem comesFrom_of_decode : ∀ ea ∈ d.operands, ea.ComesFrom x.1.format := by
  obtain ⟨hd, hfits, -⟩ := of_lookup_full hlookup
  have hfrom : d.toOperands.All (Ea.ComesFrom x.1.format) :=
    Definition.comesFrom_read hd hfits (Definition.read_of_decode hdecode).1
  exact hfrom.mem

theorem shows_of_decode {ea : Ea} (hea : ea ∈ d.operands) (hshown : ea.IsShown) :
    Decoded.Shows ea := by
  have hfrom := comesFrom_of_decode hlookup hdecode ea hea
  cases ea with
  | regList mask => exact .inl hshown
  | relative off => exact .inr ⟨off, rfl⟩
  | special reg =>
    left
    cases reg with
    | sr | ccr | usp => trivial
    | control code => exact hshown
    | cache selector => exact hfrom
  | _ => exact .inl hfrom

/-- Whatever is read in the text of an operand comes back as the operand, but for a short address with
a sign. -/
theorem returns_of_decode {ea : Ea} (hea : ea ∈ d.operands)
    (hunsigned : ∀ v, ea = .absShort v → 0 ≤ v) : ea.Returns d.mnemonic := by
  have hd := (of_lookup_full hlookup).1
  have hname := mem_names_of_decode hlookup hdecode
  have hfrom := comesFrom_of_decode hlookup hdecode ea hea
  have hregister : ea.isRegister = true → d.mnemonic ≠ "movem" := by
    intro hreg hmovem
    have hop := Catalogue.operation_of_movem x.1 hd (hmovem ▸ hname)
    have hno := (Operation.isRegister_of_takes hop (takes_of_decode hlookup hdecode)).mem ea hea
    exact absurd (hno.symm.trans hreg) Bool.false_ne_true
  cases ea with
  | dataReg r | addrReg r => exact hregister rfl
  | absShort v => exact hunsigned v rfl
  | regList mask =>
    have hown : x.1.format.ownNames = [] := by
      rcases hfrom with hf | hf <;> rw [hf] <;> rfl
    rw [Ea.Returns, Definition.mnemonic_of_decode hdecode hown]
    exact Catalogue.mnemonic_of_list x.1 hd hfrom
  | relative off =>
    exact isBranch_of_answersTo (of_lookup hlookup).1 (Definition.answersTo_of_mem hname)
      (Catalogue.isBranch_of_relative x.1 hd hfrom)
  | _ => trivial

theorem isBranch_of_unsized (hsize : d.size = none) : full.isBranch d.mnemonic = false := by
  rw [Bool.eq_false_iff]
  intro hbranch
  rw [isBranch, List.any_eq_true] at hbranch
  obtain ⟨y, hy, hopcode⟩ := hbranch
  obtain ⟨hentry, hyname⟩ := List.mem_filter.mp hy
  have hd := (of_lookup_full hlookup).1
  have hname := Definition.answersTo_of_mem (mem_names_of_decode hlookup hdecode)
  have hsized := Catalogue.alwaysSized_of_isBranch y.1 (mem_full hentry) x.1 hd hopcode
    (Definition.share_of_answersTo (mem_full hentry) hd hyname hname)
  exact Format.read_size (Definition.read_of_decode hdecode).1 hsized hsize

end Registry

namespace Assembler

variable {s : WordSource} {c : Cursor} {tier : Tier} {d : Decoded}
  (h : Registry.full.decode tier s .start = .ok (some d) c)

include h

theorem plannedSize_of_decode (known : Bool) :
    (Assembler.mk .full tier).plannedSize d.mnemonic d.size d.toOperands known = d.size := by
  obtain ⟨x, hlookup, hdecode⟩ := Registry.of_decode_some h
  unfold plannedSize
  cases hsize : d.size with
  | some size => rfl
  | none =>
    rw [Registry.isBranch_of_unsized hlookup hdecode hsize, Bool.and_false]
    exact if_neg Bool.false_ne_true

theorem request_of_decode (hshown : ∀ ea ∈ d.operands, ea.IsShown)
    (hunsigned : ∀ v, .absShort v ∈ d.operands → 0 ≤ v) (scope : Scope) :
    (Assembler.mk .full tier).request scope d.mnemonic d.size (d.operands.map d.written) d.address =
      .ok (d.toOperands, true) := by
  obtain ⟨x, hlookup, hdecode⟩ := Registry.of_decode_some h
  obtain ⟨y, e, -, hchoose, -⟩ := Registry.choose_of_decode h (Decoded.src_ne_zero hshown)
  have hreturns : ∀ ea ∈ d.operands, Decoded.Shows ea ∧ ea.Returns d.mnemonic := fun ea hea =>
    ⟨Registry.shows_of_decode hlookup hdecode hea (hshown ea hea),
      Registry.returns_of_decode hlookup hdecode hea fun v hv => hunsigned v (hv ▸ hea)⟩
  refine request_eq_ok.2 ⟨?_, _, mapM_lower_written hreturns, ?_, ?_⟩
  · rw [List.length_map, Decoded.operands]
    cases d.src <;> cases d.dst <;> simp
  · have heas : (d.operands.map (·, true)).map Prod.fst = d.operands := by
      rw [List.map_map]
      exact List.map_id _
    rw [heas]
    exact arrange_of_choose hchoose
  · simp

end Assembler

end ColdFire
