import ColdFire.Proofs.Assembly.Form
import ColdFire.Proofs.Registry.Decoded

namespace ColdFire

namespace Tier

variable {t t' u : Tier}

theorem le_trans (h : t ≤ t') (h' : t' ≤ u) : t ≤ u := Nat.le_trans (m := t'.level) h h'

end Tier

namespace Definition

variable {d e : Definition} {name : String} {ops : Operands} {p q : Encoding}

/-- Whether `d` may stand before `e`: it is not of a later tier, or no request without a size suits
it, or no name leads to both. -/
def mayPrecede (d e : Definition) : Bool :=
  d.tier ≤ e.tier || d.needsSize || !(d.names.any fun name => e.names.contains name)

theorem not_plan_of_mayPrecede (hd : d ∈ Catalogue.all) (he : e ∈ Catalogue.all)
    (hdname : d.answersTo name = true) (hename : e.answersTo name = true)
    (htold : d.toldApart e = true) (hprecede : d.mayPrecede e = true) (hlater : ¬d.tier ≤ e.tier)
    (hplan : e.plan name ops = .ok p) (hplan' : d.plan name ops = .ok q) : False := by
  by_cases hsize : ops.size = none
  · rw [mayPrecede, decide_eq_false hlater, share_of_answersTo hd he hdname hename] at hprecede
    simp only [Bool.false_or, Bool.not_true, Bool.or_false] at hprecede
    exact not_plan_of_needsSize hprecede hsize hplan'
  · obtain ⟨-, -, hrivals⟩ := rivals_of_toldApart hd he hdname hename htold
    exact hrivals ops ops rfl hsize _ _ hplan' hplan

end Definition

namespace Catalogue

theorem mayPrecede : all.Pairwise fun d e => d.mayPrecede e = true :=
  pairwise_of_allPairs (by decide +kernel)

end Catalogue

namespace Registry

variable {tier tier' : Tier} {w : UInt16} {x : Entry} {name : String} {ops : Operands}

theorem claims_of_le {d : Definition} (h : tier ≤ tier') (hclaims : d.claims w tier = true) :
    d.claims w tier' = true := by
  obtain ⟨htier, hfits, haccepts⟩ := Definition.claims_iff.1 hclaims
  exact Definition.claims_iff.2 ⟨Tier.le_trans htier h, hfits, haccepts⟩

theorem lookup_of_le (h : tier ≤ tier') (hlookup : full.lookup w tier = some x) :
    full.lookup w tier' = some x := by
  obtain ⟨hx, hclaims⟩ := of_lookup hlookup
  exact lookup_of_claims hx (claims_of_le h hclaims)

theorem decode_of_le {s : WordSource} {c c' : Cursor} {decoded : Decoded} (h : tier ≤ tier')
    (hdecode : full.decode tier s c = .ok (some decoded) c') :
    full.decode tier' s c = .ok (some decoded) c' := by
  cases hlookup : full.lookup s.opcode tier with
  | none =>
    rw [decode, hlookup] at hdecode
    cases hdecode
  | some x =>
    rw [decode_of_lookup (lookup_of_le h hlookup), ← decode_of_lookup hlookup]
    exact hdecode

/-- More forms, before and behind, do not change which one is chosen, if those before it suit nothing
that suits it. -/
theorem firstForm_filter {e : Encoding} {noForm noForm' : EncodeError} {p q : Entry → Bool}
    {forms : List Entry} (hsub : ∀ y, p y = true → q y = true)
    (hforms : forms.Pairwise fun y z => ∀ e e', p y = false → p z = true →
      z.1.plan name ops = .ok e → y.1.plan name ops = .ok e' → False)
    {failed failed' : Option EncodeError}
    (h : firstForm name ops noForm failed (forms.filter p) = .ok (x, e)) :
    firstForm name ops noForm' failed' (forms.filter q) = .ok (x, e) := by
  induction forms generalizing failed failed' with
  | nil => cases h
  | cons y rest ih =>
    obtain ⟨hfirst, hrest⟩ := List.pairwise_cons.mp hforms
    by_cases hp : p y = true
    · rw [List.filter_cons_of_pos hp, firstForm] at h
      rw [List.filter_cons_of_pos (hsub y hp), firstForm]
      cases hplan : y.1.plan name ops with
      | ok encoding =>
        rw [hplan] at h
        exact h
      | error err =>
        rw [hplan] at h
        exact ih hrest h
    · rw [List.filter_cons_of_neg hp] at h
      by_cases hq : q y = true
      · -- a form that comes in only now, in front of the chosen one: it does not suit the request
        obtain ⟨hmem, hchosen⟩ := of_firstForm h
        obtain ⟨hx, hpx⟩ := List.mem_filter.mp hmem
        rw [List.filter_cons_of_pos hq, firstForm]
        cases hplan : y.1.plan name ops with
        | ok encoding =>
          exact (hfirst x hx e encoding (Bool.eq_false_iff.mpr hp) hpx hchosen hplan).elim
        | error err => exact ih hrest h
      · rw [List.filter_cons_of_neg hq]
        exact ih hrest h

theorem named_pairwise {R : Definition → Definition → Prop} (h : Catalogue.all.Pairwise R) :
    (full.named name).Pairwise fun y z => R y.1 z.1 := by
  rw [← List.zipIdx_map_fst 0 Catalogue.all, List.pairwise_map] at h
  exact h.filter _

theorem choose_of_le {e : Encoding} (h : tier ≤ tier')
    (hchoose : full.choose name ops tier = .ok (x, e)) :
    full.choose name ops tier' = .ok (x, e) := by
  have hforms : (full.named name).Pairwise fun y z => ∀ e e', decide (y.1.tier ≤ tier) = false →
      decide (z.1.tier ≤ tier) = true → z.1.plan name ops = .ok e →
      y.1.plan name ops = .ok e' → False := by
    refine ((named_pairwise Catalogue.toldApart).and (named_pairwise Catalogue.mayPrecede)).imp_of_mem
      fun {y z} hy hz hpair e e' hlater hearlier hplan hplan' => ?_
    obtain ⟨hy, hyname⟩ := List.mem_filter.mp hy
    obtain ⟨hz, hzname⟩ := List.mem_filter.mp hz
    have hzy : ¬y.1.tier ≤ z.1.tier := fun hle =>
      of_decide_eq_false hlater (Tier.le_trans hle (of_decide_eq_true hearlier))
    exact Definition.not_plan_of_mayPrecede (mem_full hy) (mem_full hz) hyname hzname hpair.1 hpair.2
      hzy hplan hplan'
  unfold choose at hchoose ⊢
  split at hchoose
  · cases hchoose
  · exact firstForm_filter
      (fun y hy => decide_eq_true (Tier.le_trans (of_decide_eq_true hy) h)) hforms hchoose

/-- Whatever is looked up, decoded, selected, encoded or measured on a tier is so, and with the same
result, on every later tier. -/
theorem tiers_only_add (h : tier ≤ tier') :
    (∀ w x, full.lookup w tier = some x → full.lookup w tier' = some x) ∧
    (∀ s c decoded c', full.decode tier s c = .ok (some decoded) c' →
      full.decode tier' s c = .ok (some decoded) c') ∧
    ∀ name ops,
      (∀ x, full.select name ops tier = .ok x → full.select name ops tier' = .ok x) ∧
      (∀ words, full.encode name ops tier = .ok words → full.encode name ops tier' = .ok words) ∧
      ∀ length, full.calcSize name ops tier = .ok length →
        full.calcSize name ops tier' = .ok length := by
  refine ⟨fun w x => lookup_of_le h, fun s c decoded c' => decode_of_le h, fun name ops => ?_⟩
  -- Each of the three computes from the chosen form alone.
  have hcarry {α : Type} (f : Entry × Encoding → Except EncodeError α) (v : α)
      (hv : (full.choose name ops tier >>= f) = .ok v) :
      (full.choose name ops tier' >>= f) = .ok v := by
    obtain ⟨⟨x, e⟩, hchoose, hf⟩ := except_bind_eq_ok.1 hv
    exact except_bind_eq_ok.2 ⟨(x, e), choose_of_le h hchoose, hf⟩
  exact ⟨fun x => hcarry _ x, fun words => hcarry _ words, fun length => hcarry _ length⟩

/-- A number to an address register: two forms of the second tier stand in front of the one that is
chosen. -/
theorem tiers_only_add_address :
    let ops : Operands := ⟨none, some (.immediate 5), some (.addrReg 1)⟩
    Tier.a ≤ Tier.c ∧ full.encode "move" ops .a = .ok [0x227C, 0, 5] ∧
      full.encode "move" ops .c = .ok [0x227C, 0, 5] := by
  intro ops
  have hle : Tier.a ≤ Tier.c := by decide
  have hwords : full.encode "move" ops .a = .ok [0x227C, 0, 5] := rfl
  exact ⟨hle, hwords, ((tiers_only_add hle).2.2 "move" ops).2.1 _ hwords⟩

end Registry

end ColdFire
