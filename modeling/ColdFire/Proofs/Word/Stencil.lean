import ColdFire.Proofs.Word.Field

namespace ColdFire

namespace Stencil

/-- The fields lie within a word, have different names and share no bits. -/
structure WellFormed (s : Stencil) : Prop where
  inWord : ∀ entry ∈ s.fields, entry.2.InWord
  nodup : (s.fields.map Prod.fst).Nodup
  disjoint : ∀ a ∈ s.fields, ∀ b ∈ s.fields, a.1 ≠ b.1 → a.2.Disjoint b.2

instance (s : Stencil) : Decidable s.WellFormed :=
  decidable_of_iff
    ((∀ entry ∈ s.fields, entry.2.InWord) ∧ (s.fields.map Prod.fst).Nodup ∧
      ∀ a ∈ s.fields, ∀ b ∈ s.fields, a.1 ≠ b.1 → a.2.Disjoint b.2)
    ⟨fun h => ⟨h.1, h.2.1, h.2.2⟩, fun h => ⟨h.inWord, h.nodup, h.disjoint⟩⟩

def all : List Stencil :=
  [ea, sizedEa, regEa, move, quick, branch, condReg, shift, moveq, vector, reg, cache, brief, mulDiv,
    control]

theorem wellFormed_of_mem_all : ∀ s ∈ all, s.WellFormed := by decide

/-- The word after one call; an unknown name changes nothing. -/
def set (s : Stencil) (word : UInt16) (call : String × UInt16) : UInt16 :=
  (s.field? call.1).elim word fun f => f.set word call.2

/-- What a sequence of calls gives to one field, in order. -/
def given (name : String) (calls : List (String × UInt16)) : List UInt16 :=
  calls.filterMap fun call => if call.1 = name then some call.2 else none

variable {s : Stencil} {name : String} {f : Field} {v w : UInt16} {i : Nat}

theorem setAll_cons (s : Stencil) (word : UInt16) (call : String × UInt16)
    (calls : List (String × UInt16)) :
    s.setAll word (call :: calls) = s.setAll (s.set word call) calls := rfl

theorem given_cons (name : String) (call : String × UInt16) (calls : List (String × UInt16)) :
    given name (call :: calls) =
      if call.1 = name then call.2 :: given name calls else given name calls := by
  rw [given, List.filterMap_cons]
  by_cases h : call.1 = name
  · rw [if_pos h, if_pos h]
    rfl
  · rw [if_neg h, if_neg h]
    rfl

theorem mem_fields_of_field? (h : s.field? name = some f) : (name, f) ∈ s.fields := by
  obtain ⟨before, after, hfields, -⟩ := List.lookup_eq_some_iff.mp h
  rw [hfields]
  exact List.mem_append_right before List.mem_cons_self

namespace WellFormed

theorem field?_of_mem (h : s.WellFormed) (hf : (name, f) ∈ s.fields) : s.field? name = some f := by
  obtain ⟨before, after, hfields⟩ := List.append_of_mem hf
  refine List.lookup_eq_some_iff.mpr ⟨before, after, hfields, fun entry hentry => ?_⟩
  have hnodup := h.nodup
  rw [hfields, List.map_append, List.nodup_append] at hnodup
  rw [bne_iff_ne]
  exact (hnodup.2.2 _ (List.mem_map_of_mem hentry) _ List.mem_cons_self).symm

theorem get_set (h : s.WellFormed) (hf : (name, f) ∈ s.fields) (word : UInt16)
    (call : String × UInt16) :
    f.get (s.set word call) =
      if call.1 = name then call.2 &&& UInt16.ofNat f.limit else f.get word := by
  unfold Stencil.set
  by_cases hname : call.1 = name
  · rw [if_pos hname, hname, h.field?_of_mem hf]
    exact Field.get_set (h.inWord _ hf) word call.2
  · rw [if_neg hname]
    cases hfield : s.field? call.1 with
    | none => rfl
    | some g =>
      have hg := mem_fields_of_field? hfield
      exact Field.get_set_of_disjoint (h.inWord _ hg) (h.inWord _ hf) (h.disjoint _ hg _ hf hname)
        word call.2

theorem bitAt_set (h : s.WellFormed) (hi : i < 16) (hout : ∀ entry ∈ s.fields, ¬ entry.2.Covers i)
    (word : UInt16) (call : String × UInt16) : bitAt (s.set word call) i = bitAt word i := by
  unfold Stencil.set
  cases hfield : s.field? call.1 with
  | none => rfl
  | some g =>
    have hg := mem_fields_of_field? hfield
    exact (Field.bitAt_set (h.inWord _ hg) word call.2 hi).trans (if_neg (hout _ hg))

/-- After any calls a field holds the last that was given to it, else what it held. -/
theorem get_setAll (h : s.WellFormed) (hf : (name, f) ∈ s.fields) (word : UInt16)
    (calls : List (String × UInt16)) :
    f.get (s.setAll word calls) =
      (given name calls).getLast?.elim (f.get word) (· &&& UInt16.ofNat f.limit) := by
  -- on the calls from the first: a later one on the field overrides what it has set
  induction calls generalizing word with
  | nil => rfl
  | cons call calls ih =>
    rw [setAll_cons, ih, h.get_set hf, given_cons]
    by_cases hname : call.1 = name
    · rw [if_pos hname, if_pos hname, List.getLast?_cons]
      cases (given name calls).getLast? <;> rfl
    · rw [if_neg hname, if_neg hname]

theorem bitAt_setAll (h : s.WellFormed) (hi : i < 16)
    (hout : ∀ entry ∈ s.fields, ¬ entry.2.Covers i) (word : UInt16)
    (calls : List (String × UInt16)) : bitAt (s.setAll word calls) i = bitAt word i := by
  induction calls generalizing word with
  | nil => rfl
  | cons call calls ih => rw [setAll_cons, ih, h.bitAt_set hi hout]

/-- A word is made of its fields and of the bits outside of all of them. -/
theorem eq_of_get_eq (h : s.WellFormed) (hget : ∀ entry ∈ s.fields, entry.2.get v = entry.2.get w)
    (hout : ∀ i < 16, (∀ entry ∈ s.fields, ¬ entry.2.Covers i) → bitAt v i = bitAt w i) :
    v = w := by
  apply eq_of_bitAt_eq
  intro i hi
  by_cases hin : ∃ entry ∈ s.fields, entry.2.Covers i
  · obtain ⟨entry, hentry, hcovers⟩ := hin
    exact Field.bitAt_eq_of_get_eq (h.inWord entry hentry) (hget entry hentry) hcovers
  · exact hout i hi fun entry hentry hcovers => hin ⟨entry, hentry, hcovers⟩

/-- Only the order of the calls on one field counts. -/
theorem setAll_congr (h : s.WellFormed) (word : UInt16) {calls calls' : List (String × UInt16)}
    (hgiven : ∀ entry ∈ s.fields, given entry.1 calls' = given entry.1 calls) :
    s.setAll word calls' = s.setAll word calls := by
  -- exchanging calls is never looked at: both words have the same fields and the same other bits
  apply h.eq_of_get_eq
  · intro entry hentry
    rw [h.get_setAll hentry, h.get_setAll hentry, hgiven entry hentry]
  · intro i hi hout
    rw [h.bitAt_setAll hi hout, h.bitAt_setAll hi hout]

end WellFormed

/-- Whatever calls set fields of a word: a field that was set holds the last value given to it, cut to
its width, a field that was never set and a bit outside of all fields are as they were, and calls that
give each field the same values in the same order make the same word, however the fields take turns. -/
theorem setAll_fields {s : Stencil} (hs : s ∈ all) (word : UInt16) (calls : List (String × UInt16)) :
    (∀ name f, (name, f) ∈ s.fields →
      (∀ earlier last, given name calls = earlier ++ [last] →
        (f.get (s.setAll word calls)).toNat = last.toNat % 2 ^ f.width) ∧
      (given name calls = [] → f.get (s.setAll word calls) = f.get word)) ∧
    (∀ i < 16, (∀ entry ∈ s.fields, ¬ entry.2.Covers i) →
      bitAt (s.setAll word calls) i = bitAt word i) ∧
    ∀ reordered, (∀ entry ∈ s.fields, given entry.1 reordered = given entry.1 calls) →
      s.setAll word reordered = s.setAll word calls := by
  have h := wellFormed_of_mem_all s hs
  refine ⟨fun name f hf => ⟨fun earlier last hgiven => ?_, fun hgiven => ?_⟩,
    fun i hi hout => h.bitAt_setAll hi hout word calls,
    fun reordered hgiven => h.setAll_congr word hgiven⟩
  · rw [h.get_setAll hf, hgiven, List.getLast?_concat]
    exact Field.toNat_and_limit (h.inWord _ hf) last
  · rw [h.get_setAll hf, hgiven]
    rfl

/-- Two calls on the data of a quick addition with one on its neighbour between them, both values too
wide for their fields. -/
theorem setAll_fields_quick :
    let calls := [("data", 2), ("sub", 0xFFFE), ("data", 0xFFFD)]
    let reordered := [("sub", 0xFFFE), ("data", 2), ("data", 0xFFFD)]
    quick ∈ all ∧ quick.setAll 0x5555 calls = 0x5A55 ∧
      (Field.quickData.get (quick.setAll 0x5555 calls)).toNat = 5 ∧
      Field.size.get (quick.setAll 0x5555 calls) = 1 ∧
      bitAt (quick.setAll 0x5555 calls) 12 = true ∧
      quick.setAll 0x5555 reordered = quick.setAll 0x5555 calls := by
  intro calls reordered
  have hquick : quick ∈ all := by simp [all]
  obtain ⟨hfields, hout, horder⟩ := setAll_fields hquick 0x5555 calls
  exact ⟨hquick, by decide, (hfields "data" .quickData (by decide)).1 [2] 0xFFFD (by decide),
    (hfields "size" .size (by decide)).2 (by decide), hout 12 (by decide) (by decide),
    horder reordered (by decide)⟩

end Stencil

end ColdFire
