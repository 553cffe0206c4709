import ColdFire.Proofs.Registry.Lookup
import Mathlib.Data.List.Basic

namespace ColdFire

namespace Registry

structure IsClaimant (r : Registry) (w : UInt16) (tier : Tier) (x : Entry) : Prop where
  mem : x ∈ r.entries
  claims : x.1.claims w tier = true

/-- A claimant than which no other has more fixed bits. -/
structure IsMostSpecific (r : Registry) (w : UInt16) (tier : Tier) (x : Entry) : Prop
    extends r.IsClaimant w tier x where
  le : ∀ y, r.IsClaimant w tier y → y.1.specificity ≤ x.1.specificity

/-- The most specific claimant that was registered first. -/
structure IsFirst (r : Registry) (w : UInt16) (tier : Tier) (x : Entry) : Prop
    extends r.IsMostSpecific w tier x where
  index_le : ∀ y, r.IsMostSpecific w tier y → x.2 ≤ y.2

/-- On every tier a word has one most specific claimant at most. -/
def Unambiguous (r : Registry) : Prop :=
  ∀ tier w x y, r.IsMostSpecific w tier x → r.IsMostSpecific w tier y → x = y

/-- `x` has more fixed bits than `y`, or as many and a place before it. -/
def Precedes (x y : Entry) : Prop :=
  y.1.specificity < x.1.specificity ∨ y.1.specificity = x.1.specificity ∧ x.2 < y.2

variable {definitions : List Definition} {x y : Entry} {w : UInt16} {tier : Tier}

theorem Precedes.le (h : Precedes x y) : y.1.specificity ≤ x.1.specificity := by
  rcases h with hlt | ⟨heq, -⟩
  · exact hlt.le
  · exact heq.le

theorem Precedes.ne (h : Precedes x y) : x ≠ y := by
  rintro rfl
  rcases h with hlt | ⟨-, hlt⟩
  · exact lt_irrefl _ hlt
  · exact lt_irrefl _ hlt

theorem entries_increasing : (ofList definitions).entries.Pairwise fun x y => x.2 < y.2 := by
  have hrange : (definitions.zipIdx.map Prod.snd).Pairwise (· < ·) := by
    rw [List.zipIdx_map_snd]
    exact List.pairwise_lt_range'
  exact List.pairwise_map.mp hrange

theorem entry_ext (hx : x ∈ (ofList definitions).entries) (hy : y ∈ (ofList definitions).entries)
    (h : x.2 = y.2) : x = y := by
  have hx := List.mem_zipIdx_iff_getElem?.mp hx
  have hy := List.mem_zipIdx_iff_getElem?.mp hy
  rw [h, hy] at hx
  exact Prod.ext (Option.some.inj hx.symm) h

section Sorting

variable {entries : List Entry}

theorem specificity_trans (x y z : Entry) (hxy : decide (y.1.specificity ≤ x.1.specificity) = true)
    (hyz : decide (z.1.specificity ≤ y.1.specificity) = true) :
    decide (z.1.specificity ≤ x.1.specificity) = true := by
  rw [decide_eq_true_eq] at hxy hyz ⊢
  exact hyz.trans hxy

theorem specificity_total (x y : Entry) :
    (decide (y.1.specificity ≤ x.1.specificity) || decide (x.1.specificity ≤ y.1.specificity)) =
      true := by
  rw [Bool.or_eq_true, decide_eq_true_eq, decide_eq_true_eq]
  exact le_total _ _

theorem mostSpecificFirst_pairwise :
    (mostSpecificFirst entries).Pairwise fun x y => y.1.specificity ≤ x.1.specificity :=
  (List.pairwise_mergeSort specificity_trans specificity_total entries).imp of_decide_eq_true

/-- Definitions of equal specificity keep their order. They are sorted as they stand, so they are a
sublist of what is sorted, and no shorter than all that it has of them. -/
theorem filter_mostSpecificFirst (k : Nat) :
    (mostSpecificFirst entries).filter (·.1.specificity == k) =
      entries.filter (·.1.specificity == k) := by
  have hsorted : (entries.filter (·.1.specificity == k)).Pairwise
      fun x y => decide (y.1.specificity ≤ x.1.specificity) = true := by
    refine List.pairwise_of_forall_mem_list ?_
    intro x hx y hy
    have hx := eq_of_beq (List.mem_filter.mp hx).2
    have hy := eq_of_beq (List.mem_filter.mp hy).2
    rw [hx, hy]
    exact decide_eq_true le_rfl
  have hsub := List.sublist_mergeSort specificity_trans specificity_total hsorted
    List.filter_sublist
  have hsub' := hsub.filter (·.1.specificity == k)
  simp only [List.filter_filter, Bool.and_self] at hsub'
  refine (hsub'.eq_of_length ?_).symm
  exact ((List.mergeSort_perm entries _).filter _).length_eq.symm

theorem precedes_mostSpecificFirst (h : entries.Pairwise fun x y => x.2 < y.2) :
    (mostSpecificFirst entries).Pairwise Precedes := by
  rw [List.pairwise_iff_forall_sublist]
  intro x y hsub
  have hle := List.pairwise_iff_forall_sublist.mp mostSpecificFirst_pairwise hsub
  rcases hle.lt_or_eq with hlt | heq
  · exact .inl hlt
  · -- among equals nothing has moved
    refine .inr ⟨heq, ?_⟩
    have hkept : [x, y].filter (·.1.specificity == x.1.specificity) = [x, y] := by
      simp [heq]
    have hsub' := hsub.filter (·.1.specificity == x.1.specificity)
    rw [filter_mostSpecificFirst, hkept] at hsub'
    exact List.pairwise_iff_forall_sublist.mp h (hsub'.trans List.filter_sublist)

end Sorting

def claimants (r : Registry) (w : UInt16) (tier : Tier) : List Entry :=
  (r.bucket w).filter fun x => x.1.claims w tier

theorem mem_claimants : x ∈ (ofList definitions).claimants w tier ↔
    (ofList definitions).IsClaimant w tier x := by
  rw [claimants, List.mem_filter, mem_bucket]
  constructor
  · rintro ⟨⟨hmem, -⟩, hclaims⟩
    exact ⟨hmem, hclaims⟩
  · rintro ⟨hmem, hclaims⟩
    exact ⟨⟨hmem, mayStart_of_fits (Definition.claims_iff.1 hclaims).2.1⟩, hclaims⟩

theorem claimants_pairwise (definitions : List Definition) (w : UInt16) (tier : Tier) :
    ((ofList definitions).claimants w tier).Pairwise Precedes := by
  refine List.Pairwise.filter _ ?_
  rw [bucket_ofList]
  exact precedes_mostSpecificFirst (entries_increasing.filter _)

theorem lookup_eq_head? : (ofList definitions).lookup w tier =
    ((ofList definitions).claimants w tier).head? :=
  List.head?_filter.symm

theorem precedes_of_lookup (h : (ofList definitions).lookup w tier = some x)
    (hy : (ofList definitions).IsClaimant w tier y) : x = y ∨ Precedes x y := by
  rw [lookup_eq_head?] at h
  have hpairs := claimants_pairwise definitions w tier
  rw [← mem_claimants] at hy
  -- the head of an ordered list precedes all of its tail
  cases hclaimants : (ofList definitions).claimants w tier with
  | nil =>
    rw [hclaimants] at h
    cases h
  | cons z rest =>
    rw [hclaimants] at h hy hpairs
    cases h
    rcases List.mem_cons.mp hy with rfl | hrest
    · exact .inl rfl
    · exact .inr ((List.pairwise_cons.mp hpairs).1 y hrest)

theorem isFirst_of_lookup (h : (ofList definitions).lookup w tier = some x) :
    (ofList definitions).IsFirst w tier x := by
  obtain ⟨hmem, hclaims⟩ := of_lookup h
  have hle (y : Entry) (hy : (ofList definitions).IsClaimant w tier y) :
      y.1.specificity ≤ x.1.specificity := by
    rcases precedes_of_lookup h hy with rfl | hprecedes
    · exact le_rfl
    · exact hprecedes.le
  refine ⟨⟨⟨hmem, hclaims⟩, hle⟩, ?_⟩
  intro y hy
  rcases precedes_of_lookup h hy.toIsClaimant with rfl | hlt | ⟨-, hlt⟩
  · exact le_rfl
  · exact absurd (hy.le x ⟨hmem, hclaims⟩) (not_le.mpr hlt)
  · exact hlt.le

theorem IsFirst.unique (hx : (ofList definitions).IsFirst w tier x)
    (hy : (ofList definitions).IsFirst w tier y) : x = y :=
  entry_ext hx.mem hy.mem
    (le_antisymm (hx.index_le y hy.toIsMostSpecific) (hy.index_le x hx.toIsMostSpecific))

theorem lookup_eq_none : (ofList definitions).lookup w tier = none ↔
    ∀ x, ¬ (ofList definitions).IsClaimant w tier x := by
  rw [lookup_eq_head?, List.head?_eq_none_iff, List.eq_nil_iff_forall_not_mem]
  simp only [mem_claimants]

theorem lookup_eq_some : (ofList definitions).lookup w tier = some x ↔
    (ofList definitions).IsFirst w tier x := by
  refine ⟨isFirst_of_lookup, fun h => ?_⟩
  cases hlookup : (ofList definitions).lookup w tier with
  | none => exact absurd h.toIsClaimant (lookup_eq_none.1 hlookup x)
  | some y => rw [(isFirst_of_lookup hlookup).unique h]

/-- Where the first two claimants are not equally specific, nothing behind them is as specific as the
first. -/
theorem eq_of_claimants {z : Entry} {rest : List Entry}
    (h : (ofList definitions).claimants w tier = x :: y :: rest)
    (hne : y.1.specificity ≠ x.1.specificity) (hz : (ofList definitions).IsMostSpecific w tier z) :
    z = x := by
  have hpairs := claimants_pairwise definitions w tier
  have hmem := mem_claimants.2 hz.toIsClaimant
  rw [h, List.pairwise_cons, List.pairwise_cons] at hpairs
  obtain ⟨hx, hy, -⟩ := hpairs
  have hxclaims : (ofList definitions).IsClaimant w tier x :=
    mem_claimants.1 (h ▸ List.mem_cons_self)
  have hlt : y.1.specificity < x.1.specificity :=
    lt_of_le_of_ne (hx y List.mem_cons_self).le hne
  rw [h] at hmem
  rcases List.mem_cons.mp hmem with rfl | hmem
  · rfl
  · have hzy : z.1.specificity ≤ y.1.specificity := by
      rcases List.mem_cons.mp hmem with rfl | hrest
      · exact le_rfl
      · exact (hy z hrest).le
    exact absurd (hz.le x hxclaims) (not_le.mpr (hzy.trans_lt hlt))

theorem not_unique_of_claimants {rest : List Entry}
    (h : (ofList definitions).claimants w tier = x :: y :: rest)
    (hsame : y.1.specificity = x.1.specificity) :
    ¬ ∀ a b, (ofList definitions).IsMostSpecific w tier a →
      (ofList definitions).IsMostSpecific w tier b → a = b := by
  intro hunique
  have hlookup : (ofList definitions).lookup w tier = some x := by
    rw [lookup_eq_head?, h, List.head?_cons]
  have hx := isFirst_of_lookup hlookup
  have hy : (ofList definitions).IsClaimant w tier y :=
    mem_claimants.1 (h ▸ List.mem_cons_of_mem _ List.mem_cons_self)
  have hpairs := claimants_pairwise definitions w tier
  rw [h] at hpairs
  have hprecedes := (List.pairwise_cons.mp hpairs).1 y List.mem_cons_self
  refine hprecedes.ne (hunique _ _ hx.toIsMostSpecific ⟨hy, ?_⟩)
  intro z hz
  exact hsame ▸ hx.le z hz

theorem conflict?_eq_none : (ofList definitions).conflict? w tier = none ↔
    ∀ x y, (ofList definitions).IsMostSpecific w tier x →
      (ofList definitions).IsMostSpecific w tier y → x = y := by
  unfold conflict?
  cases hclaimants : (ofList definitions).claimants w tier with
  | nil =>
    rw [show List.filter _ _ = [] from hclaimants]
    refine iff_of_true rfl fun x y hx _ => ?_
    have hmem := mem_claimants.2 hx.toIsClaimant
    rw [hclaimants] at hmem
    cases hmem
  | cons first rest =>
    cases rest with
    | nil =>
      rw [show List.filter _ _ = [first] from hclaimants]
      refine iff_of_true rfl fun x y hx hy => ?_
      have hx := mem_claimants.2 hx.toIsClaimant
      have hy := mem_claimants.2 hy.toIsClaimant
      rw [hclaimants, List.mem_singleton] at hx hy
      exact hx.trans hy.symm
    | cons second rest =>
      rw [show List.filter _ _ = first :: second :: rest from hclaimants]
      by_cases hsame : second.1.specificity = first.1.specificity
      · exact iff_of_false (by simp [hsame]) (not_unique_of_claimants hclaimants hsame)
      · refine iff_of_true (if_neg hsame) fun x y hx hy => ?_
        rw [eq_of_claimants hclaimants hsame hx, eq_of_claimants hclaimants hsame hy]

theorem forM_eq_ok {α ε : Type} {f : α → Except ε Unit} {l : List α} :
    l.forM f = .ok () ↔ ∀ a ∈ l, f a = .ok () := by
  induction l with
  | nil => exact iff_of_true rfl nofun
  | cons a l ih =>
    rw [List.forall_mem_cons, ← ih]
    change (f a >>= fun _ => l.forM f) = _ ↔ _
    cases f a with
    | error e => exact iff_of_false nofun nofun
    | ok u => exact ⟨fun h => ⟨rfl, h⟩, fun h => h.2⟩

theorem verify_eq_ok_iff {r : Registry} : r.verify = .ok () ↔
    ∀ tier ∈ Tier.all, ∀ n ∈ List.range 0x10000, r.conflict? (UInt16.ofNat n) tier = none := by
  rw [verify, forM_eq_ok]
  refine forall₂_congr fun tier _ => ?_
  rw [forM_eq_ok]
  refine forall₂_congr fun n _ => ?_
  dsimp only
  cases r.conflict? (UInt16.ofNat n) tier with
  | none => exact iff_of_true rfl rfl
  | some pair => exact iff_of_false nofun nofun

theorem verify_eq_ok : (ofList definitions).verify = .ok () ↔
    (ofList definitions).Unambiguous := by
  have htier (tier : Tier) : tier ∈ Tier.all := by cases tier <;> decide
  rw [verify_eq_ok_iff]
  constructor
  · intro h tier w
    have hw := h tier (htier tier) w.toNat (List.mem_range.mpr w.toNat_lt)
    rw [UInt16.ofNat_toNat] at hw
    exact conflict?_eq_none.1 hw
  · intro h tier _ n _
    exact conflict?_eq_none.2 (h tier _)

theorem exists_isClaimant {definitions' : List Definition} (hperm : definitions.Perm definitions')
    (h : (ofList definitions).IsClaimant w tier x) :
    ∃ i, (ofList definitions').IsClaimant w tier (x.1, i) := by
  have hmem : x.1 ∈ definitions' := by
    rw [← hperm.mem_iff, ← List.zipIdx_map_fst 0 definitions]
    exact List.mem_map_of_mem h.mem
  obtain ⟨i, hi, hx⟩ := List.mem_iff_getElem.mp hmem
  refine ⟨i, ?_, h.claims⟩
  exact List.mem_zipIdx_iff_getElem?.mpr (hx ▸ List.getElem?_eq_getElem hi)

theorem lookup_perm {definitions' : List Definition} (hperm : definitions.Perm definitions')
    (hverify : (ofList definitions).verify = .ok ()) :
    ((ofList definitions').lookup w tier).map Prod.fst =
      ((ofList definitions).lookup w tier).map Prod.fst := by
  cases hlookup : (ofList definitions).lookup w tier with
  | none =>
    have hnone : (ofList definitions').lookup w tier = none := by
      refine lookup_eq_none.2 fun y hy => ?_
      obtain ⟨i, hclaimant⟩ := exists_isClaimant hperm.symm hy
      exact lookup_eq_none.1 hlookup _ hclaimant
    rw [hnone]
  | some x =>
    have hx := isFirst_of_lookup hlookup
    obtain ⟨i, hxclaims⟩ := exists_isClaimant hperm hx.toIsClaimant
    cases hlookup' : (ofList definitions').lookup w tier with
    | none => exact absurd hxclaims (lookup_eq_none.1 hlookup' _)
    | some y =>
      have hy := isFirst_of_lookup hlookup'
      obtain ⟨j, hyclaims⟩ := exists_isClaimant hperm.symm hy.toIsClaimant
      -- `y` stays most specific in the first order, where there is no other beside `x`
      have hle : x.1.specificity ≤ y.1.specificity := hy.le (x.1, i) hxclaims
      have hmost : (ofList definitions).IsMostSpecific w tier (y.1, j) :=
        ⟨hyclaims, fun z hz => (hx.le z hz).trans hle⟩
      have hsame := verify_eq_ok.1 hverify tier w _ _ hmost hx.toIsMostSpecific
      rw [← hsame]
      rfl

/-- Looking up in a bucket finds what a scan of all definitions would: the claimant with the most fixed
bits, and of several such the one that was registered first. Verification succeeds exactly if on no
tier a word has two claimants with the most fixed bits; then the order of the definitions does not
matter. -/
theorem lookup_spec (definitions : List Definition) :
    (∀ w tier x, (ofList definitions).lookup w tier = some x ↔
      (ofList definitions).IsFirst w tier x) ∧
    (∀ w tier, (ofList definitions).lookup w tier = none ↔
      ∀ x, ¬ (ofList definitions).IsClaimant w tier x) ∧
    ((ofList definitions).verify = .ok () ↔ (ofList definitions).Unambiguous) ∧
    ((ofList definitions).verify = .ok () → ∀ definitions', definitions.Perm definitions' →
      ∀ w tier, ((ofList definitions').lookup w tier).map Prod.fst =
        ((ofList definitions).lookup w tier).map Prod.fst) := by
  refine ⟨fun _ _ _ => lookup_eq_some, fun _ _ => lookup_eq_none, verify_eq_ok, ?_⟩
  intro hverify definitions' hperm w tier
  exact lookup_perm hperm hverify

/-- Every word is a word of the first definition, and one of them of the second too, in either order. -/
theorem lookup_spec_overlap :
    let any : Definition :=
      { mnemonic := "dc", opcode := 0, operandMask := 0xFFFF, format := .bare, operation := .illegal }
    let nop : Definition :=
      { mnemonic := "nop", opcode := 0x4E71, operandMask := 0, format := .bare,
        operation := .nothing }
    (ofList [any, nop]).verify = .ok () ∧ [any, nop].Perm [nop, any] ∧
      (ofList [any, nop]).lookup 0x4E71 .a = some (nop, 1) ∧
      ((ofList [nop, any]).lookup 0x4E71 .a).map Prod.fst = some nop := by
  intro any nop
  have hmem {x : Entry} (hx : x ∈ (ofList [any, nop]).entries) : x = (any, 0) ∨ x = (nop, 1) := by
    rw [← List.mem_pair]
    exact hx
  have hunambiguous : (ofList [any, nop]).Unambiguous := by
    intro tier w x y hx hy
    have hxy := (hx.le y hy.toIsClaimant).antisymm (hy.le x hx.toIsClaimant)
    rcases hmem hx.mem with rfl | rfl <;> rcases hmem hy.mem with rfl | rfl
    · rfl
    · exact absurd hxy (by decide)
    · exact absurd hxy (by decide)
    · rfl
  obtain ⟨hfound, -, hverify, hperm⟩ := lookup_spec [any, nop]
  have hmost : (ofList [any, nop]).IsMostSpecific 0x4E71 .a (nop, 1) := by
    refine ⟨⟨List.mem_cons_of_mem _ List.mem_cons_self, by decide⟩, ?_⟩
    intro y hy
    rcases hmem hy.mem with rfl | rfl <;> decide
  have hlookup : (ofList [any, nop]).lookup 0x4E71 .a = some (nop, 1) := by
    refine (hfound _ _ _).2 ⟨hmost, fun y hy => ?_⟩
    exact (congrArg Prod.snd (hunambiguous _ _ _ _ hmost hy)).le
  refine ⟨hverify.2 hunambiguous, List.Perm.swap nop any [], hlookup, ?_⟩
  rw [hperm (hverify.2 hunambiguous) _ (List.Perm.swap nop any []), hlookup]
  rfl

end Registry

end ColdFire
