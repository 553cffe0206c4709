import ColdFire.Assembly.Program
import ColdFire.Proofs.Assembly.Lowering

namespace ColdFire

theorem exists_of_mem_mapM {ε α β : Type} {f : α → Except ε β} {xs : List α} {ys : List β} {y : β}
    (h : xs.mapM f = .ok ys) (hy : y ∈ ys) : ∃ x ∈ xs, f x = .ok y := by
  rw [Image.mapM_eq_ok] at h
  induction h with
  | nil => cases hy
  | @cons x z _ _ hz _ ih =>
    rcases List.mem_cons.mp hy with rfl | hrest
    · exact ⟨x, List.mem_cons_self, hz⟩
    · obtain ⟨x', hmem, hx'⟩ := ih hrest
      exact ⟨x', List.mem_cons_of_mem _ hmem, hx'⟩

theorem exists_of_mapM {ε α β : Type} {f : α → Except ε β} {xs : List α} {ys : List β} {x : α}
    (h : xs.mapM f = .ok ys) (hx : x ∈ xs) : ∃ y, f x = .ok y := by
  rw [Image.mapM_eq_ok] at h
  induction h with
  | nil => cases hx
  | cons hy _ ih =>
    rcases List.mem_cons.mp hx with rfl | hrest
    · exact ⟨_, hy⟩
    · exact ih hrest

namespace Assembly

def Operand.RegistersExist : Operand → Prop
  | .dataReg r | .addrReg r | .indirect r | .postInc r | .preDec r | .disp _ r => r < 8
  | .index _ r ix => r < 8 ∧ ix.reg < 8
  | .pcIndex _ ix => ix.reg < 8
  | .regPair w x => w < 8 ∧ x < 8
  | .absShort _ | .absLong _ | .bare _ | .pcDisp _ | .immediate _ | .regList _ | .special _ => True

namespace Register

variable {name : List Char} {r : Register} {n : UInt8}

theorem lt_of_number? {c : Char} (h : number? c = some n) : n < 8 := by
  unfold number? at h
  split at h
  · rename_i hc
    cases h
    have hlow : 48 ≤ c.toNat := hc.1
    have hhigh : c.toNat ≤ 55 := hc.2
    rw [UInt8.lt_iff_toNat_lt, UInt8.toNat_ofNat']
    change (c.toNat - 48) % 256 < 8
    omega
  · cases h

theorem lt_of_ofName? (h : ofName? name = some r) : r.number < 8 := by
  unfold ofName? at h
  split at h
  · cases h
    decide
  · cases h
    decide
  · obtain ⟨n, hn, rfl⟩ := Option.map_eq_some_iff.mp h
    exact lt_of_number? hn
  · obtain ⟨n, hn, rfl⟩ := Option.map_eq_some_iff.mp h
    exact lt_of_number? hn
  · cases h

theorem lt_of_address? (h : address? name = some n) : n < 8 := by
  obtain ⟨r, hr, h⟩ := Option.bind_eq_some_iff.mp h
  split at h
  · cases h
    exact lt_of_ofName? hr
  · cases h

end Register

namespace Operand

variable {cs operand base : List Char} {more : List (List Char)} {op : Operand} {ix : IndexReg}

theorem lt_of_readIndex (h : readIndex cs = .ok ix) : ix.reg < 8 := by
  simp only [readIndex, except_bind_eq_ok] at h
  obtain ⟨⟨reg, scale⟩, -, ⟨name, long⟩, -, h⟩ := h
  cases hname : Register.ofName? name with
  | none =>
    rw [hname] at h
    cases h
  | some r =>
    rw [hname] at h
    cases h
    exact Register.lt_of_ofName? hname

theorem lt_of_readIndexPart (h : readIndexPart operand more = .ok (some ix)) : ix.reg < 8 := by
  unfold readIndexPart at h
  split at h
  · cases h
  · obtain ⟨ix', hread, hix⟩ := except_map_eq_ok.1 h
    cases hix
    exact lt_of_readIndex hread
  · cases h

theorem registersExist_based {disp : Option Expression} (h : based operand disp base more = .ok op) :
    op.RegistersExist := by
  rw [based, except_bind_eq_ok] at h
  obtain ⟨ix, hix, h⟩ := h
  dsimp only at h
  split at h
  · obtain rfl := except_pure_eq_ok.1 h
    cases ix with
    | none => trivial
    | some ix => exact lt_of_readIndexPart hix
  · cases hreg : Register.address? (Text.lower base) with
    | none =>
      rw [hreg] at h
      cases h
    | some reg =>
      rw [hreg] at h
      obtain rfl := except_pure_eq_ok.1 h
      have hlt := Register.lt_of_address? hreg
      cases ix with
      | none =>
        cases disp with
        | none => exact hlt
        | some e => exact hlt
      | some ix => exact ⟨hlt, lt_of_readIndexPart hix⟩

theorem registersExist_bare {x : Except SyntaxError Expression} (h : x.map bare = .ok op) :
    op.RegistersExist := by
  obtain ⟨e, -, rfl⟩ := except_map_eq_ok.1 h
  trivial

theorem registersExist_parenthesized (h : parenthesized operand = .ok op) : op.RegistersExist := by
  unfold parenthesized at h
  split at h
  · cases h
  · split at h
    · cases h
    · split at h
      · obtain ⟨e, -, h⟩ := except_bind_eq_ok.1 h
        exact registersExist_based h
      · split at h
        · exact registersExist_based h
        · split at h
          · split at h
            · cases h
            · exact registersExist_bare h
          · obtain ⟨e, -, h⟩ := except_bind_eq_ok.1 h
            exact registersExist_based h

theorem registersExist_memory (h : memory operand = .ok op) : op.RegistersExist := by
  unfold memory at h
  dsimp only at h
  split at h
  · split at h
    · rename_i hreg
      cases h
      exact Register.lt_of_address? hreg
    · cases h
  · split at h
    · rename_i hreg
      cases h
      exact Register.lt_of_address? hreg
    · cases h
  · split at h
    · obtain ⟨e, -, rfl⟩ := except_map_eq_ok.1 h
      trivial
    split at h
    · obtain ⟨e, -, rfl⟩ := except_map_eq_ok.1 h
      trivial
    split at h
    · exact registersExist_parenthesized h
    · exact registersExist_bare h

theorem registersExist_pair {w x : List Char} (h : pair? w x = some op) : op.RegistersExist := by
  unfold pair? at h
  split at h
  · rename_i w' x' hw hx
    cases h
    exact ⟨Register.lt_of_ofName? hw, Register.lt_of_ofName? hx⟩
  · cases h

theorem registersExist_plain (h : parsePlain operand = .ok op) : op.RegistersExist := by
  unfold parsePlain at h
  dsimp only at h
  split at h
  · rename_i hreg
    cases h
    have hlt := Register.lt_of_ofName? hreg
    split
    · exact hlt
    · exact hlt
  · cases h
    trivial
  · split at h
    · rename_i hpair
      cases h
      exact registersExist_pair hpair
    · cases h
  · split at h
    · cases h
      trivial
    · exact registersExist_memory h

theorem registersExist_parse (h : parse cs = .ok op) : op.RegistersExist := by
  unfold parse at h
  split at h
  · cases h
  · obtain ⟨e, -, rfl⟩ := except_map_eq_ok.1 h
    trivial
  · exact registersExist_plain h

end Operand

def Statement.RegistersExist : Statement → Prop
  | .instruction _ _ operands => ∀ op ∈ operands, op.RegistersExist
  | _ => True

namespace Statement

variable {word operands cs : List Char} {st : Statement}

theorem registersExist_ofParts (h : ofParts word operands = .ok st) : st.RegistersExist := by
  unfold ofParts at h
  split at h
  case h_2 =>
    cases h
    trivial
  case h_9 =>
    split at h
    · cases h
    · obtain ⟨⟨mnemonic, size⟩, -, h⟩ := except_bind_eq_ok.1 h
      obtain ⟨ops, hops, h⟩ := except_bind_eq_ok.1 h
      obtain rfl := except_pure_eq_ok.1 h
      intro op hop
      obtain ⟨piece, -, hparse⟩ := exists_of_mem_mapM hops hop
      exact Operand.registersExist_parse hparse
  all_goals
    obtain ⟨e, -, rfl⟩ := except_map_eq_ok.1 h
    trivial

theorem registersExist_parse (h : parse cs = .ok (some st)) : st.RegistersExist := by
  unfold parse at h
  split at h
  · cases h
  · obtain ⟨st', hparts, hst⟩ := except_map_eq_ok.1 h
    cases hst
    exact registersExist_ofParts hparts

end Statement

end Assembly

namespace Assembler

open Assembly

theorem registersExist_of_parseLines {source : String} {lines : List Line}
    (h : parseLines source = .ok lines) {line : Line} (hline : line ∈ lines) {st : Statement}
    (hst : line.statement = some st) : st.RegistersExist := by
  obtain ⟨⟨text, number⟩, -, h⟩ := exists_of_mem_mapM h hline
  have hparse : Line.parse number text = .ok line := by
    cases hr : Line.parse number text with
    | ok l => simpa [hr, Except.mapError] using h
    | error e => simp [hr, Except.mapError] at h
  obtain ⟨st', hst', rfl⟩ := except_map_eq_ok.1 hparse
  obtain rfl : st' = some st := hst
  exact Statement.registersExist_parse hst'

theorem registersExist_of_lower {a : Assembler} {s : Scope} {mnemonic : String} {pc : UInt32}
    {operand : Operand} {r : Ea × Bool} (hregs : operand.RegistersExist)
    (h : a.lower s mnemonic pc operand = .ok r) : r.1.RegistersExist := by
  cases operand with
  | dataReg n | addrReg n =>
    cases h
    dsimp only
    split
    · trivial
    · exact hregs
  | indirect n | postInc n | preDec n | regList mask | regPair w x | special reg =>
    cases h
    exact hregs
  | disp e reg | index e reg ix =>
    simp only [lower, except_bind_eq_ok, except_pure_eq_ok] at h
    obtain ⟨v, -, rfl⟩ := h
    exact hregs
  | absLong e =>
    simp only [lower, except_bind_eq_ok, except_pure_eq_ok] at h
    obtain ⟨v, -, rfl⟩ := h
    trivial
  | absShort e | immediate e | pcDisp e | pcIndex e ix =>
    simp only [lower, except_bind_eq_ok, except_pure_eq_ok, except_ite_throw_eq_ok] at h
    obtain ⟨v, -, -, rfl⟩ := h
    exact hregs
  | bare e =>
    simp only [lower, lowerTarget, lowerAddress] at h
    split at h
    · simp only [except_bind_eq_ok, except_pure_eq_ok] at h
      obtain ⟨v, -, rfl⟩ := h
      trivial
    · simp only [except_bind_eq_ok] at h
      obtain ⟨v, -, h⟩ := h
      split at h
      · obtain rfl := except_pure_eq_ok.1 h
        trivial
      · obtain rfl := except_pure_eq_ok.1 h
        trivial

end Assembler

end ColdFire
