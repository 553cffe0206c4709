import ColdFire.Proofs.Assembly.Lowering
import ColdFire.Proofs.Assembly.Registers
import ColdFire.Proofs.Execution.Access
import ColdFire.Proofs.Word.Width

namespace ColdFire

/-- The address of an absolute operand, which the short form extends by its sign. -/
def Ea.absolute? : Ea → Option UInt32
  | absShort v => some v.toInt32.toUInt32
  | absLong v => some v
  | _ => none

theorem Ea.absolute?_reduced (ea : Ea) (size : Size) : (ea.reduced size).absolute? = ea.absolute? := by
  cases ea <;> rfl

/-- An operand of a decoded instruction is at an address: it is found there, counted from the word
behind the opcode word, and as a source it leads there. -/
structure Decoded.Refers (d : Decoded) (ea : Ea) (target : UInt32) : Prop where
  located (cpu : Cpu) (size : Size) : ea.At cpu size (d.address + 2) (.mem target)
  leads : d.src = some ea → d.staticTarget? = some target

namespace Assembly

/-- An expression has a value: a number by itself, a symbol if it is defined. -/
def Expression.Denotes (symbols : Symbols) (e : Expression) (v : Int) : Prop :=
  match e.symbol with
  | none => v = e.offset
  | some name => ∃ addr, symbols[name]? = some addr ∧ v = addr.toNat + e.offset

/-- What the decoded operand `ea` of an instruction is to the operand that was written. A displacement
is counted from the word behind the opcode word if its expression has a symbol. -/
def Operand.Reaches (branch : Bool) (symbols : Symbols) (d : Decoded) : Operand → Ea → Prop
  | .bare e, ea => ∃ v, e.Denotes symbols v ∧
      if branch then d.src = some ea ∧ d.branchTarget? = some (UInt32.ofInt v) ∧
        d.staticTarget? = some (UInt32.ofInt v)
      else ea.absolute? = some (UInt32.ofInt v) ∧ d.Refers ea (UInt32.ofInt v)
  | .absShort e, ea => ∃ v, e.Denotes symbols v ∧ ea.modes = .absShort ∧
      ea.absolute? = some (UInt32.ofInt v) ∧ d.Refers ea (UInt32.ofInt v)
  | .absLong e, ea => ∃ v, e.Denotes symbols v ∧ ea.modes = .absLong ∧
      ea.absolute? = some (UInt32.ofInt v) ∧ d.Refers ea (UInt32.ofInt v)
  | .pcDisp e, ea => ∃ v disp, e.Denotes symbols v ∧ ea = .pcDisp disp ∧
      if e.symbol.isSome then d.address.toNat + 2 + disp.toInt = v ∧ d.Refers ea (UInt32.ofInt v)
      else disp.toInt = v
  | .pcIndex e ix, ea => ∃ v disp, e.Denotes symbols v ∧ ea = .pcIndex disp ix ∧
      if e.symbol.isSome then d.address.toNat + 2 + disp.toInt = v ∧
        ∀ cpu size, ea.At cpu size (d.address + 2) (.mem (UInt32.ofInt v + ix.value cpu))
      else disp.toInt = v
  | _, _ => True

end Assembly

namespace Decoded

variable {d : Decoded} {ea : Ea} {target : UInt32}

theorem refers_of_absolute? (h : ea.absolute? = some target) : d.Refers ea target := by
  cases ea with
  | absShort v | absLong v =>
    cases h
    refine ⟨fun cpu size => ⟨none, rfl⟩, ?_⟩
    intro hsrc
    rw [staticTarget?, hsrc]
  | _ => cases h

theorem refers_pcDisp {disp : Int16} {v : Int} (h : d.address.toNat + 2 + disp.toInt = v) :
    d.Refers (.pcDisp disp) (UInt32.ofInt v) := by
  have htarget : d.address + 2 + disp.toInt32.toUInt32 = UInt32.ofInt v := by
    rw [toUInt32_eq_ofInt, Int16.toInt_toInt32]
    exact add_two_add_ofInt h
  constructor
  · intro cpu size
    exact ⟨none, by rw [Ea.locate, htarget]⟩
  · intro hsrc
    rw [staticTarget?, hsrc, ← htarget]

theorem at_pcIndex {disp : Int8} {ix : IndexReg} {v : Int}
    (h : d.address.toNat + 2 + disp.toInt = v) (cpu : Cpu) (size : Size) :
    (Ea.pcIndex disp ix).At cpu size (d.address + 2) (.mem (UInt32.ofInt v + ix.value cpu)) := by
  have htarget : d.address + 2 + disp.toInt32.toUInt32 = UInt32.ofInt v := by
    rw [toUInt32_eq_ofInt, Int8.toInt_toInt32]
    exact add_two_add_ofInt h
  exact ⟨none, by rw [Ea.locate, htarget]⟩

end Decoded

namespace Assembly

theorem widen_eq_ofInt (a : UInt32) : widen a = .ofInt a.toNat := by
  rw [Int64.ofInt_eq_ofNat, ← UInt64.toInt64_ofNat', widen, ← UInt32.toNat_toUInt64,
    UInt64.ofNat_toNat]

theorem Value.long_of {v : Value} {w : Int} (h : v.value = .ofInt w) : v.long = UInt32.ofInt w := by
  rw [long, h, toUInt32_toUInt64_ofInt]

theorem Expression.Denotes.bounds {symbols : Symbols} {e : Expression} {v : Int}
    (h : e.Denotes symbols v) : -0x8000000000000000 ≤ v ∧ v < 0x8000000100000000 := by
  have hlow := e.addend.le_toInt
  have hhigh := e.addend.toInt_lt
  unfold Denotes at h
  split at h
  · rw [h, offset]
    omega
  · obtain ⟨addr, -, rfl⟩ := h
    have haddr := addr.toNat_lt
    rw [offset]
    omega

theorem Scope.denotes_of_eval {s : Scope} {e : Expression} {v : Value} (hs : s.strict = true)
    (h : s.eval e = .ok v) : ∃ w, e.Denotes s.symbols w ∧ v.value = .ofInt w := by
  unfold eval at h
  unfold Expression.Denotes
  cases hsymbol : e.symbol with
  | none =>
    rw [hsymbol] at h
    cases h
    exact ⟨e.offset, rfl, (Int64.ofInt_toInt _).symm⟩
  | some name =>
    rw [hsymbol] at h
    dsimp only at h
    cases haddr : s.symbols[name]? with
    | some addr =>
      rw [haddr] at h
      cases h
      refine ⟨addr.toNat + e.offset, ⟨addr, haddr, rfl⟩, ?_⟩
      rw [Int64.ofInt_add, ← widen_eq_ofInt, Expression.offset, Int64.ofInt_toInt]
    | none =>
      rw [haddr] at h
      dsimp only at h
      rw [if_pos hs] at h
      cases h

theorem Scope.long_of_eval {s : Scope} {e : Expression} {v : Value} (hs : s.strict = true)
    (h : s.eval e = .ok v) : ∃ w, e.Denotes s.symbols w ∧ v.long = UInt32.ofInt w := by
  obtain ⟨w, hw, hvalue⟩ := denotes_of_eval hs h
  exact ⟨w, hw, Value.long_of hvalue⟩

end Assembly

namespace Assembler

open Assembly

theorem fitsShort_eq (v : Int64) : fitsShort v = true ↔
    -0x8000 ≤ v.toInt ∧ v.toInt ≤ 0x7FFF ∨ 0xFFFF8000 ≤ v.toInt ∧ v.toInt ≤ 0xFFFFFFFF := by
  simp [fitsShort, Int64.le_iff_toInt_le]

theorem within_word_iff {v : Int64} :
    -0x8000 ≤ v ∧ v ≤ 0x7FFF ↔ -0x8000 ≤ v.toInt ∧ v.toInt ≤ 0x7FFF := by
  simp [Int64.le_iff_toInt_le]

theorem within_byte_iff {v : Int64} : -0x80 ≤ v ∧ v ≤ 0x7F ↔ -0x80 ≤ v.toInt ∧ v.toInt ≤ 0x7F := by
  simp [Int64.le_iff_toInt_le]

theorem absolute?_of_fitsShort {v : Value} (h : fitsShort v.value = true) :
    (Ea.absShort v.value.toInt16).absolute? = some v.long := by
  rw [Ea.absolute?, toUInt32_eq_ofInt, Int16.toInt_toInt32, Int64.toInt_toInt16,
    Value.long_of (Int64.ofInt_toInt _).symm]
  refine congrArg some (ofInt_eq_ofInt ?_)
  rcases (fitsShort_eq v.value).1 h with ⟨hlow, hhigh⟩ | ⟨hlow, hhigh⟩
  · rw [Int.bmod_eq_of_le (by omega) (by omega)]
  · -- the upper range is that of the negative words, as unsigned addresses
    have hbelow : Int.bmod v.value.toInt (2 ^ 16) = v.value.toInt - 0x100000000 := by
      rw [Int.bmod_def]
      omega
    rw [hbelow]
    omega

variable {a : Assembler} {s : Scope} {mnemonic : String} {pc : UInt32} {d : Decoded}

theorem distance_ofInt (pc : UInt32) (v : Int) :
    distance pc (.ofInt v) = .ofInt (v - (pc.toNat + 2)) := by
  rw [distance, widen_eq_ofInt, Int64.ofInt_sub, Int64.ofInt_add]
  rfl

/-- The distance to an address leads there, also if it has been cut to 32 bits. -/
theorem add_distance (pc : UInt32) (v : Int) :
    pc + 2 + (distance pc (.ofInt v)).toInt32.toUInt32 = UInt32.ofInt v := by
  rw [distance_ofInt, Int64.toInt32_ofInt, toUInt32_ofInt]
  exact add_two_add_ofInt (by omega)

theorem targets_of_distance {v : Int}
    (hsrc : d.src = some (.relative (distance d.address (.ofInt v)).toInt32)) :
    d.branchTarget? = some (UInt32.ofInt v) ∧ d.staticTarget? = some (UInt32.ofInt v) := by
  have htarget := add_distance d.address v
  rw [Decoded.branchTarget?, Decoded.staticTarget?, hsrc, ← htarget]
  exact ⟨rfl, rfl⟩

theorem displacement_eq_ok {e : Expression} {v : Value} (hs : s.strict = true)
    (h : displacement s pc e = .ok v) (hlow : -0x8000 ≤ v.value.toInt)
    (hhigh : v.value.toInt ≤ 0x7FFF) : ∃ w, e.Denotes s.symbols w ∧
      if e.symbol.isSome then pc.toNat + 2 + v.value.toInt = w else v.value.toInt = w := by
  rw [displacement, except_bind_eq_ok] at h
  obtain ⟨u, hu, h⟩ := h
  obtain ⟨w, hw, hvalue⟩ := Scope.denotes_of_eval hs hu
  obtain ⟨hwlow, hwhigh⟩ := hw.bounds
  have hpc := pc.toNat_lt
  obtain rfl := except_pure_eq_ok.1 h
  refine ⟨w, hw, ?_⟩
  rw [Scope.known_of_strict hs hu, Bool.and_true] at hlow hhigh ⊢
  by_cases hsymbol : e.symbol.isSome = true
  · simp only [if_pos hsymbol, hvalue, distance_ofInt] at hlow hhigh ⊢
    rw [toInt_ofInt_of_small (by omega) (by omega) ⟨by omega, by omega⟩]
    omega
  · simp only [if_neg hsymbol, hvalue] at hlow hhigh ⊢
    exact toInt_ofInt_of_small (by omega) (by omega) ⟨by omega, by omega⟩

theorem toInt_toInt16_of_within {v : Int64} (h : -0x8000 ≤ v ∧ v ≤ 0x7FFF) :
    v.toInt16.toInt = v.toInt := by
  have hbounds := within_word_iff.1 h
  rw [Int64.toInt_toInt16]
  exact Int.bmod_eq_of_le (by omega) (by omega)

theorem toInt_toInt8_of_within {v : Int64} (h : -0x80 ≤ v ∧ v ≤ 0x7F) :
    v.toInt8.toInt = v.toInt := by
  have hbounds := within_byte_iff.1 h
  rw [Int64.toInt_toInt8]
  exact Int.bmod_eq_of_le (by omega) (by omega)

theorem relative_of_lowerTarget {e : Expression} {r : Ea × Bool} (hs : s.strict = true)
    (h : lowerTarget s pc e = .ok r) :
    ∃ w, e.Denotes s.symbols w ∧ r.1 = .relative (distance pc (.ofInt w)).toInt32 := by
  rw [lowerTarget, except_bind_eq_ok] at h
  obtain ⟨v, hv, h⟩ := h
  obtain rfl := except_pure_eq_ok.1 h
  obtain ⟨w, hw, hvalue⟩ := Scope.denotes_of_eval hs hv
  refine ⟨w, hw, ?_⟩
  rw [Scope.known_of_strict hs hv, if_pos rfl, hvalue]

theorem absolute?_of_lowerAddress {e : Expression} {r : Ea × Bool} (hs : s.strict = true)
    (h : lowerAddress s e = .ok r) :
    ∃ w, e.Denotes s.symbols w ∧ r.1.absolute? = some (UInt32.ofInt w) := by
  rw [lowerAddress, except_bind_eq_ok] at h
  obtain ⟨v, hv, h⟩ := h
  obtain ⟨w, hw, hlong⟩ := Scope.long_of_eval hs hv
  refine ⟨w, hw, ?_⟩
  rw [← hlong]
  split at h
  · rename_i hshort
    obtain rfl := except_pure_eq_ok.1 h
    rw [Bool.and_eq_true] at hshort
    exact absolute?_of_fitsShort hshort.2
  · obtain rfl := except_pure_eq_ok.1 h
    rfl

/-- Whatever an operand is lowered to once all symbols are known reaches what it was written with. An
immediate may be cut to a size, and nothing else. -/
theorem reaches_of_lower {operand : Operand} {r : Ea × Bool} (hs : s.strict = true)
    (h : a.lower s mnemonic d.address operand = .ok r) (size : Size)
    (hsrc : ∀ off, r.1 = .relative off → d.src = some r.1) :
    operand.Reaches (a.registry.isBranch mnemonic) s.symbols d (r.1.reduced size) := by
  cases operand with
  | absShort e =>
    simp only [lower, except_bind_eq_ok, except_pure_eq_ok, except_ite_throw_eq_ok] at h
    obtain ⟨v, hv, hshort, rfl⟩ := h
    obtain ⟨w, hw, hlong⟩ := Scope.long_of_eval hs hv
    have habsolute := absolute?_of_fitsShort hshort
    rw [hlong] at habsolute
    exact ⟨w, hw, rfl, habsolute, Decoded.refers_of_absolute? habsolute⟩
  | absLong e =>
    simp only [lower, except_bind_eq_ok, except_pure_eq_ok] at h
    obtain ⟨v, hv, rfl⟩ := h
    obtain ⟨w, hw, hlong⟩ := Scope.long_of_eval hs hv
    have habsolute := congrArg some hlong
    exact ⟨w, hw, rfl, habsolute, Decoded.refers_of_absolute? habsolute⟩
  | bare e =>
    simp only [lower] at h
    by_cases hbranch : a.registry.isBranch mnemonic = true
    · rw [if_pos hbranch] at h
      obtain ⟨w, hw, hrelative⟩ := relative_of_lowerTarget hs h
      have hsrc := hsrc _ hrelative
      rw [hrelative] at hsrc ⊢
      refine ⟨w, hw, ?_⟩
      rw [if_pos hbranch]
      exact ⟨hsrc, targets_of_distance hsrc⟩
    · rw [if_neg hbranch] at h
      obtain ⟨w, hw, habsolute⟩ := absolute?_of_lowerAddress hs h
      rw [← Ea.absolute?_reduced r.1 size] at habsolute
      refine ⟨w, hw, ?_⟩
      rw [if_neg hbranch]
      exact ⟨habsolute, Decoded.refers_of_absolute? habsolute⟩
  | pcDisp e =>
    simp only [lower, except_bind_eq_ok, except_pure_eq_ok, except_ite_throw_eq_ok] at h
    obtain ⟨v, hv, hbounds, rfl⟩ := h
    have hwithin := within_word_iff.1 hbounds
    obtain ⟨w, hw, hvalue⟩ := displacement_eq_ok hs hv (by omega) (by omega)
    refine ⟨w, v.value.toInt16, hw, rfl, ?_⟩
    rw [← toInt_toInt16_of_within hbounds] at hvalue
    by_cases hsymbol : e.symbol.isSome = true
    · rw [if_pos hsymbol] at hvalue ⊢
      exact ⟨hvalue, Decoded.refers_pcDisp hvalue⟩
    · rwa [if_neg hsymbol] at hvalue ⊢
  | pcIndex e ix =>
    simp only [lower, except_bind_eq_ok, except_pure_eq_ok, except_ite_throw_eq_ok] at h
    obtain ⟨v, hv, hbounds, rfl⟩ := h
    have hwithin := within_byte_iff.1 hbounds
    obtain ⟨w, hw, hvalue⟩ := displacement_eq_ok hs hv (by omega) (by omega)
    refine ⟨w, v.value.toInt8, hw, rfl, ?_⟩
    rw [← toInt_toInt8_of_within hbounds] at hvalue
    by_cases hsymbol : e.symbol.isSome = true
    · rw [if_pos hsymbol] at hvalue ⊢
      exact ⟨hvalue, Decoded.at_pcIndex hvalue⟩
    · rwa [if_neg hsymbol] at hvalue ⊢
  | _ => trivial

end Assembler

end ColdFire
