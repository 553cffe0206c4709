import ColdFire.Proofs.ControlFlow.Closed
import ColdFire.Proofs.Registry.Lookup

namespace ColdFire

namespace Registry

def unsorted : Registry := ⟨Catalogue.all.zipIdx, .replicate 16 Catalogue.all.zipIdx⟩

theorem lookup_unsorted {word : UInt16} {tier : Tier} :
    unsorted.lookup word tier = full.lookup word tier := by
  have hbucket : unsorted.bucket word = full.entries := by
    change (Vector.replicate 16 full.entries)[(word >>> 12).toNat % 16] = _
    exact Vector.getElem_replicate _
  rw [lookup, hbucket]
  cases hfind : full.entries.find? fun e => e.1.claims word tier with
  | some x =>
    have hclaims : x.1.claims word tier = true :=
      List.find?_some (p := fun e : Entry => e.1.claims word tier) hfind
    exact (lookup_of_claims (List.mem_of_find?_eq_some hfind) hclaims).symm
  | none =>
    rw [eq_comm, Option.eq_none_iff_forall_ne_some]
    intro x hsome
    obtain ⟨hx, hclaims⟩ := of_lookup hsome
    exact List.find?_eq_none.mp hfind x hx hclaims

end Registry

namespace Walk

variable {r : Registry} {tier : Tier} {img : Image} {entries : List UInt32} {budget : Nat}

theorem instructionAt?_unsorted {addr : UInt32} :
    instructionAt? .unsorted tier img addr = instructionAt? .full tier img addr := by
  unfold instructionAt?
  simp only [Registry.lookup_unsorted]

/-- What `extend` comes to in a number of turns, if it comes to an end. -/
def extendIn? (r : Registry) (tier : Tier) (img : Image) :
    (turns budget : Nat) → (queue : List UInt32) → Walk → Option Walk
  | 0, _, _, _ => none
  | _ + 1, _, [], w => some w
  | _ + 1, 0, addr :: rest, w => some { w with pending := addr :: rest }
  | turns + 1, budget + 1, addr :: rest, w =>
    if w.nodes.contains addr then extendIn? r tier img turns (budget + 1) rest w
    else
      match instructionAt? r tier img addr with
      | none => extendIn? r tier img turns (budget + 1) rest w
      | some (flow, d) =>
        extendIn? r tier img turns budget
          (rest ++ ((d.edges flow).map (·.target)).filter img.isMapped) (w.visit flow d)

theorem extend_of_extendIn? {turns : Nat} {queue : List UInt32} {w w' : Walk}
    (h : extendIn? .unsorted tier img turns budget queue w = some w') :
    extend .full tier img budget queue w = w' := by
  induction turns generalizing budget queue w with
  | zero => cases h
  | succ turns ih =>
    match queue, budget with
    | [], budget =>
      rw [extend]
      rw [extendIn?] at h
      exact Option.some.inj h
    | addr :: rest, 0 =>
      rw [extend]
      exact Option.some.inj h
    | addr :: rest, budget + 1 =>
      rw [extend]
      rw [extendIn?, instructionAt?_unsorted] at h
      by_cases hseen : w.nodes.contains addr = true
      · rw [if_pos hseen] at h ⊢
        exact ih h
      · rw [if_neg hseen] at h ⊢
        cases hinstruction : instructionAt? .full tier img addr with
        | none =>
          rw [hinstruction] at h
          exact ih h
        | some x =>
          rw [hinstruction] at h
          exact ih h

/-- What is computed of a walk is true of it. -/
theorem of_extendIn? {α : Type} (f : Walk → α) {x : α} (turns : Nat)
    (h : (extendIn? .unsorted tier img turns budget (entries.filter img.isMapped) {}).map f =
      some x) : f (fromEntries .full tier img entries budget) = x := by
  obtain ⟨w, hw, rfl⟩ := Option.map_eq_some_iff.mp h
  rw [fromEntries, extend_of_extendIn? hw]

end Walk

end ColdFire
