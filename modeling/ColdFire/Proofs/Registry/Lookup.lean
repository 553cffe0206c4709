import ColdFire.Proofs.Catalogue.Forms
import ColdFire.Registry
import Mathlib.Data.List.Pairwise
import Mathlib.Tactic.ByContra

namespace ColdFire

namespace Registry

variable {definitions : List Definition} {x : Entry} {w : UInt16} {tier : Tier}

theorem bucket_ofList : (ofList definitions).bucket w =
    mostSpecificFirst ((ofList definitions).entries.filter fun e =>
      mayStart e.1 ((w >>> 12).toNat % 16)) := by
  unfold bucket ofList
  change (Vector.ofFn _)[(w >>> 12).toNat % 16] = _
  rw [Vector.getElem_ofFn]

theorem mem_bucket : x ∈ (ofList definitions).bucket w ↔
    x ∈ (ofList definitions).entries ∧ mayStart x.1 ((w >>> 12).toNat % 16) = true := by
  rw [bucket_ofList, mostSpecificFirst, List.mem_mergeSort, List.mem_filter]

theorem of_lookup (h : (ofList definitions).lookup w tier = some x) :
    x ∈ (ofList definitions).entries ∧ x.1.claims w tier = true := by
  rw [lookup] at h
  have hmem := List.mem_of_find?_eq_some h
  have hclaims := List.find?_some h
  exact ⟨(mem_bucket.1 hmem).1, hclaims⟩

/-- A definition stands in the bucket of every word that it claims. -/
theorem mayStart_of_fits {d : Definition} (h : d.fits w = true) :
    mayStart d ((w >>> 12).toNat % 16) = true := by
  have hagree := (Definition.fits_iff.1 h).1
  have hnibble : UInt16.ofNat ((w >>> 12).toNat % 16) = w >>> 12 := by
    have hlt : (w >>> 12).toNat < 16 := by
      have := w.toNat_lt
      rw [UInt16.toNat_shiftRight]
      change w.toNat >>> 12 < 16
      rw [Nat.shiftRight_eq_div_pow]
      omega
    rw [Nat.mod_eq_of_lt hlt, UInt16.ofNat_toNat]
  have htop (i : Nat) (hi : i < 16) (hle : 12 ≤ i) : bitAt (w >>> 12 <<< 12) i = bitAt w i := by
    have hr := bitAt_shiftRight w (s := 12) (by decide) (i - 12)
    rw [Nat.add_sub_cancel' hle] at hr
    refine (bitAt_shiftLeft (w >>> 12) (s := 12) (by decide) i).trans ?_
    rw [decide_eq_true hi, decide_eq_false (by omega)]
    exact hr
  rw [mayStart, hnibble, beq_iff_eq]
  apply eq_of_bitAt_eq
  intro i hi
  have hb : (bitAt d.opcode i && bitAt (~~~d.operandMask) i) =
      (bitAt w i && bitAt (~~~d.operandMask) i) := by
    rw [← bitAt_and, ← bitAt_and]
    exact congrArg (bitAt · i) hagree
  have hnibbles : bitAt 0xF000 i = (decide (12 ≤ i) && decide (i < 16)) :=
    Field.bitAt_mask (f := ⟨12, 4⟩) (by decide) i
  rw [bitAt_and, bitAt_and, bitAt_xor, hnibbles]
  by_cases hle : 12 ≤ i
  · rw [htop i hi hle, Bool.and_xor_distrib_right, ← hb]
    simp [bitAt]
  · simp [hle, bitAt]

theorem lookup_of_unique (hx : x ∈ (ofList definitions).entries) (hclaims : x.1.claims w tier = true)
    (hunique : ∀ y ∈ (ofList definitions).entries, y.1.claims w tier = true → y = x) :
    (ofList definitions).lookup w tier = some x := by
  have hfits : x.1.fits w = true := by
    unfold Definition.claims at hclaims
    rw [Bool.and_eq_true, Bool.and_eq_true] at hclaims
    exact hclaims.1.2
  have hsome : ((ofList definitions).lookup w tier).isSome = true := by
    rw [lookup, List.find?_isSome]
    exact ⟨x, mem_bucket.2 ⟨hx, mayStart_of_fits hfits⟩, hclaims⟩
  obtain ⟨y, hy⟩ := Option.isSome_iff_exists.mp hsome
  obtain ⟨hmem, hyclaims⟩ := of_lookup hy
  rw [hy, hunique y hmem hyclaims]

theorem mem_full (h : x ∈ full.entries) : x.1 ∈ Catalogue.all := by
  rw [← List.zipIdx_map_fst 0 Catalogue.all]
  exact List.mem_map_of_mem h

theorem of_pairwise {R : Definition → Definition → Prop} (h : Catalogue.all.Pairwise R) {y : Entry}
    (hx : x ∈ full.entries) (hy : y ∈ full.entries) (hne : x ≠ y) : R x.1 y.1 ∨ R y.1 x.1 := by
  rw [← List.zipIdx_map_fst 0 Catalogue.all, List.pairwise_map] at h
  have hsymm : full.entries.Pairwise fun x y => R x.1 y.1 ∨ R y.1 x.1 := h.imp Or.inl
  have : Std.Symm fun x y : Entry => R x.1 y.1 ∨ R y.1 x.1 := ⟨fun _ _ => Or.symm⟩
  exact hsymm.forall hx hy hne

/-- Every word that a definition of the instruction set claims is looked up to it. -/
theorem lookup_of_claims (hx : x ∈ full.entries) (hclaims : x.1.claims w tier = true) :
    full.lookup w tier = some x := by
  refine lookup_of_unique hx hclaims ?_
  intro y hy hclaims'
  by_contra hne
  rcases of_pairwise Catalogue.apart hx hy (Ne.symm hne) with hapart | hapart
  · exact Definition.not_claims_of_apart hapart hclaims hclaims'
  · exact Definition.not_claims_of_apart hapart hclaims' hclaims

end Registry

end ColdFire
