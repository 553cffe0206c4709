import ColdFire.Assembly.Lowering
import ColdFire.Proofs.Assembly.Form
import ColdFire.Proofs.Memory.Image

namespace ColdFire

theorem except_ite_throw_eq_ok {ε α : Type} {c : Prop} [Decidable c] {x : Except ε α} {t : ε}
    {a : α} : (if c then x else throw t) = .ok a ↔ c ∧ x = .ok a := by
  by_cases hc : c
  · rw [if_pos hc]
    exact ⟨fun h => ⟨hc, h⟩, And.right⟩
  · rw [if_neg hc]
    exact ⟨fun h => absurd h except_throw_ne_ok, fun h => absurd h.1 hc⟩

namespace Assembly

def Symbols.Within (s t : Symbols) : Prop :=
  ∀ (name : String) (addr : UInt32), s[name]? = some addr → t[name]? = some addr

/-- `t` is a scope for the line of `s` in which all symbols have got their values. -/
structure Scope.Settles (s t : Scope) : Prop where
  line : s.line = t.line
  strict : t.strict = true
  within : s.symbols.Within t.symbols

namespace Scope

variable {s t : Scope} {e : Expression} {v w : Value} {low high : Int64} {what : String}

theorem evalWithin_eq_ok : s.evalWithin e low high what = .ok v ↔
    s.eval e = .ok v ∧ low ≤ v.value ∧ v.value ≤ high := by
  simp only [evalWithin, except_bind_eq_ok, except_ite_throw_eq_ok, except_pure_eq_ok]
  constructor
  · rintro ⟨_, hv, hbounds, rfl⟩
    exact ⟨hv, hbounds⟩
  · rintro ⟨hv, hbounds⟩
    exact ⟨v, hv, hbounds, rfl⟩

theorem eval_of_no_symbol (h : e.symbol = none) : s.eval e = .ok ⟨e.addend, true⟩ := by
  rw [eval, h]

theorem known_of_strict (hs : s.strict = true) (h : s.eval e = .ok v) : v.known = true := by
  unfold eval at h
  split at h
  · cases h
    rfl
  · split at h
    · cases h
      rfl
    · rw [if_pos hs] at h
      cases h

theorem Settles.eval (hst : s.Settles t) (hv : s.eval e = .ok v) (hw : t.eval e = .ok w)
    (hknown : v.known = true) : v = w := by
  unfold Scope.eval at hv hw
  cases hsymbol : e.symbol with
  | none =>
    rw [hsymbol] at hv hw
    exact Except.ok.inj (hv.symm.trans hw)
  | some name =>
    rw [hsymbol] at hv hw
    dsimp only at hv hw
    cases haddr : s.symbols[name]? with
    | some addr =>
      rw [haddr] at hv
      rw [hst.within name addr haddr] at hw
      exact Except.ok.inj (hv.symm.trans hw)
    | none =>
      rw [haddr] at hv
      dsimp only at hv
      split at hv
      · cases hv
      · cases hv
        cases hknown

end Scope

end Assembly

namespace Assembler

open Assembly

variable {a : Assembler} {s t : Scope} {mnemonic : String} {size : Option Size} {pc : UInt32}

theorem displacement_settles {e : Expression} {v w : Value} (hst : s.Settles t)
    (hv : displacement s pc e = .ok v) (hw : displacement t pc e = .ok w)
    (hknown : v.known = true) : v = w := by
  rw [displacement, except_bind_eq_ok] at hv hw
  obtain ⟨v', hv', hv⟩ := hv
  obtain ⟨w', hw', hw⟩ := hw
  have hknown' : v'.known = true := by
    split at hv
    · obtain rfl := except_pure_eq_ok.1 hv
      exact hknown
    · obtain rfl := except_pure_eq_ok.1 hv
      exact hknown
  obtain rfl := hst.eval hv' hw' hknown'
  exact Except.ok.inj (hv.symm.trans hw)

theorem lowerTarget_settles {e : Expression} {r r' : Ea × Bool} (hst : s.Settles t)
    (h : lowerTarget s pc e = .ok r) (h' : lowerTarget t pc e = .ok r') :
    r.1.shape = r'.1.shape ∧ (r.2 = true → r.1 = r'.1) := by
  simp only [lowerTarget, except_bind_eq_ok, except_pure_eq_ok] at h h'
  obtain ⟨v, hv, rfl⟩ := h
  obtain ⟨w, hw, rfl⟩ := h'
  refine ⟨by simp only [Ea.shape], ?_⟩
  intro hknown
  rw [hst.eval hv hw hknown]

theorem lowerAddress_settles {e : Expression} {r r' : Ea × Bool} (hst : s.Settles t)
    (h : lowerAddress s e = .ok r) (h' : lowerAddress t e = .ok r') :
    r.1.shape = r'.1.shape ∧ (r.2 = true → r.1 = r'.1) := by
  rw [lowerAddress, except_bind_eq_ok] at h h'
  obtain ⟨v, hv, h⟩ := h
  obtain ⟨w, hw, h'⟩ := h'
  cases hsymbol : e.symbol with
  | none =>
    rw [Scope.eval_of_no_symbol hsymbol] at hv hw
    cases hv
    cases hw
    obtain rfl := Except.ok.inj (h.symm.trans h')
    exact ⟨rfl, fun _ => rfl⟩
  | some name =>
    rw [hsymbol] at h h'
    obtain rfl := except_pure_eq_ok.1 h
    obtain rfl := except_pure_eq_ok.1 h'
    exact ⟨rfl, fun hknown => by rw [hst.eval hv hw hknown]⟩

/-- An operand that is lowered twice keeps its shape, and all of it if its value was known. -/
theorem lower_settles {operand : Operand} {r r' : Ea × Bool} (hst : s.Settles t)
    (h : a.lower s mnemonic pc operand = .ok r) (h' : a.lower t mnemonic pc operand = .ok r') :
    r.1.shape = r'.1.shape ∧ (r.2 = true → r.1 = r'.1) := by
  -- only an expression can be lowered differently, and its value does not decide the shape
  cases operand with
  | dataReg n | addrReg n | indirect n | postInc n | preDec n | regList mask | regPair w x
  | special reg =>
    cases h
    cases h'
    exact ⟨rfl, fun _ => rfl⟩
  | disp e reg | index e reg ix =>
    simp only [lower, except_bind_eq_ok, except_pure_eq_ok, Scope.evalWithin_eq_ok] at h h'
    obtain ⟨v, ⟨hv, -⟩, rfl⟩ := h
    obtain ⟨w, ⟨hw, -⟩, rfl⟩ := h'
    exact ⟨by simp only [Ea.shape], fun hknown => by rw [hst.eval hv hw hknown]⟩
  | absLong e =>
    simp only [lower, except_bind_eq_ok, except_pure_eq_ok] at h h'
    obtain ⟨v, hv, rfl⟩ := h
    obtain ⟨w, hw, rfl⟩ := h'
    exact ⟨by simp only [Ea.shape], fun hknown => by rw [hst.eval hv hw hknown]⟩
  | absShort e | immediate e =>
    simp only [lower, except_bind_eq_ok, except_pure_eq_ok, except_ite_throw_eq_ok] at h h'
    obtain ⟨v, hv, -, rfl⟩ := h
    obtain ⟨w, hw, -, rfl⟩ := h'
    exact ⟨by simp only [Ea.shape], fun hknown => by rw [hst.eval hv hw hknown]⟩
  | pcDisp e | pcIndex e ix =>
    simp only [lower, except_bind_eq_ok, except_pure_eq_ok, except_ite_throw_eq_ok] at h h'
    obtain ⟨v, hv, -, rfl⟩ := h
    obtain ⟨w, hw, -, rfl⟩ := h'
    exact ⟨by simp only [Ea.shape], fun hknown => by rw [displacement_settles hst hv hw hknown]⟩
  | bare e =>
    simp only [lower] at h h'
    by_cases hbranch : a.registry.isBranch mnemonic = true
    · rw [if_pos hbranch] at h h'
      exact lowerTarget_settles hst h h'
    · rw [if_neg hbranch] at h h'
      exact lowerAddress_settles hst h h'

theorem lowerAll_settles {operands : List Operand} {rs rs' : List (Ea × Bool)} (hst : s.Settles t)
    (h : operands.mapM (a.lower s mnemonic pc) = .ok rs)
    (h' : operands.mapM (a.lower t mnemonic pc) = .ok rs') :
    (rs.map Prod.fst).map Ea.shape = (rs'.map Prod.fst).map Ea.shape ∧
      (rs.all Prod.snd = true → rs.map Prod.fst = rs'.map Prod.fst) := by
  rw [Image.mapM_eq_ok] at h h'
  induction h generalizing rs' with
  | nil =>
    cases h'
    exact ⟨rfl, fun _ => rfl⟩
  | cons hr _ ih =>
    cases h' with
    | cons hr' hrest =>
      obtain ⟨hshape, hsame⟩ := lower_settles hst hr hr'
      obtain ⟨hshapes, hsames⟩ := ih hrest
      refine ⟨by simp only [List.map_cons, hshape, hshapes], ?_⟩
      intro hknown
      rw [List.all_cons, Bool.and_eq_true] at hknown
      rw [List.map_cons, List.map_cons, hsame hknown.1, hsames hknown.2]

theorem request_eq_ok {operands : List Operand} {ops : Operands} {known : Bool} :
    a.request s mnemonic size operands pc = .ok (ops, known) ↔
      operands.length ≤ 2 ∧ ∃ rs, operands.mapM (a.lower s mnemonic pc) = .ok rs ∧
        a.arrange mnemonic size (rs.map Prod.fst) = .ok ops ∧ rs.all Prod.snd = known := by
  simp only [request, except_guard_eq_ok, except_bind_eq_ok, not_lt]
  refine and_congr_right fun _ => exists_congr fun rs => and_congr_right fun _ => ?_
  cases a.arrange mnemonic size (rs.map Prod.fst) with
  | ok ops' => simp [pure, Except.pure]
  | error e => simp [throw, throwThe, MonadExceptOf.throw]

theorem request_settles {tier : Tier} {operands : List Operand} {ops ops' : Operands}
    {known known' : Bool} (hst : s.Settles t)
    (h : (Assembler.mk .full tier).request s mnemonic size operands pc = .ok (ops, known))
    (h' : (Assembler.mk .full tier).request t mnemonic size operands pc = .ok (ops', known')) :
    ops.shape = ops'.shape ∧ (known = true → ops = ops') := by
  obtain ⟨-, rs, hrs, harrange, rfl⟩ := request_eq_ok.1 h
  obtain ⟨-, rs', hrs', harrange', rfl⟩ := request_eq_ok.1 h'
  obtain ⟨hshape, hsame⟩ := lowerAll_settles hst hrs hrs'
  refine ⟨arrange_shape hshape harrange harrange', ?_⟩
  intro hknown
  rw [hsame hknown] at harrange
  exact Except.ok.inj (harrange.symm.trans harrange')

end Assembler

end ColdFire
