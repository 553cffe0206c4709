import ColdFire.Proofs.Registry.Lookup
import Mathlib.Tactic.ByContra

namespace ColdFire

namespace Definition

variable {d e : Definition} {name : String}

theorem answersTo_iff :
    d.answersTo name = true ↔ ∃ known ∈ d.names, Text.lower known.toList = Text.lower name.toList := by
  simp [answersTo, names]

theorem answersTo_of_mem (h : name ∈ d.names) : d.answersTo name = true :=
  answersTo_iff.2 ⟨name, h, rfl⟩

/-- Definitions that answer to one name share a name of theirs. -/
theorem share_of_answersTo (hd : d ∈ Catalogue.all) (he : e ∈ Catalogue.all)
    (hdname : d.answersTo name = true) (hename : e.answersTo name = true) :
    (d.names.any fun name => e.names.contains name) = true := by
  obtain ⟨n, hn, hnlower⟩ := answersTo_iff.1 hdname
  obtain ⟨k, hk, hklower⟩ := answersTo_iff.1 hename
  rw [Catalogue.lower_name d hd n hn] at hnlower
  rw [Catalogue.lower_name e he k hk] at hklower
  have hsame : n = k := String.toList_inj.mp (hnlower.trans hklower.symm)
  rw [List.any_eq_true]
  exact ⟨n, hn, by rw [List.contains_iff_mem]; exact hsame ▸ hk⟩

/-- Definitions of one name always have a size, and no requests of one shape with a size suit both. -/
theorem rivals_of_toldApart (hd : d ∈ Catalogue.all) (he : e ∈ Catalogue.all)
    (hdname : d.answersTo name = true) (hename : e.answersTo name = true)
    (h : d.toldApart e = true) :
    d.format.alwaysSized = true ∧ e.format.alwaysSized = true ∧
      ∀ ops ops' : Operands, ops.shape = ops'.shape → ops.size ≠ none → ∀ p q,
        d.plan name ops = .ok p → e.plan name ops' = .ok q → False := by
  have hshare := share_of_answersTo hd he hdname hename
  rw [toldApart, hshare, Bool.not_true, Bool.false_or, Bool.and_eq_true, Bool.and_eq_true] at h
  obtain ⟨⟨hsized, hsized'⟩, hclash⟩ := h
  refine ⟨hsized, hsized', ?_⟩
  intro ops ops' hshape hsize p q hp hq
  exact not_plan_of_clashes (Catalogue.regular d hd) (Catalogue.regular e he) hclash
    (Format.sizes_ne_nil hsized) (Format.sizes_ne_nil hsized') hshape hsize hp hq

end Definition

namespace Registry

variable {name : String} {ops : Operands} {noForm : EncodeError} {x : Entry} {e : Encoding}

theorem of_firstForm {failed : Option EncodeError} {forms : List Entry}
    (h : firstForm name ops noForm failed forms = .ok (x, e)) :
    x ∈ forms ∧ x.1.plan name ops = .ok e := by
  induction forms generalizing failed with
  | nil => cases h
  | cons y rest ih =>
    rw [firstForm] at h
    split at h
    · rename_i encoding hplan
      cases h
      exact ⟨List.mem_cons_self, hplan⟩
    · obtain ⟨hmem, hplan⟩ := ih h
      exact ⟨List.mem_cons_of_mem _ hmem, hplan⟩

theorem firstForm_of_unique {forms : List Entry} (hmem : x ∈ forms)
    (hplan : x.1.plan name ops = .ok e)
    (hunique : ∀ y ∈ forms, ∀ e', y.1.plan name ops = .ok e' → y = x)
    (failed : Option EncodeError) : firstForm name ops noForm failed forms = .ok (x, e) := by
  induction forms generalizing failed with
  | nil => cases hmem
  | cons y rest ih =>
    rw [firstForm]
    split
    · rename_i encoding hy
      obtain rfl := hunique y List.mem_cons_self encoding hy
      rw [hplan] at hy
      cases hy
      rfl
    · rename_i err hy
      have hrest : x ∈ rest := by
        rcases List.mem_cons.mp hmem with rfl | hrest
        · rw [hplan] at hy
          cases hy
        · exact hrest
      exact ih hrest (fun z hz => hunique z (List.mem_cons_of_mem _ hz)) _

variable {tier : Tier}

theorem of_choose {r : Registry} (h : r.choose name ops tier = .ok (x, e)) :
    x ∈ r.entries ∧ x.1.answersTo name = true ∧ x.1.tier ≤ tier ∧ x.1.plan name ops = .ok e := by
  unfold choose at h
  split at h
  · cases h
  · obtain ⟨hmem, hplan⟩ := of_firstForm h
    obtain ⟨hnamed, htier⟩ := List.mem_filter.mp hmem
    obtain ⟨hentry, hname⟩ := List.mem_filter.mp hnamed
    exact ⟨hentry, hname, of_decide_eq_true htier, hplan⟩

theorem choose_of_unique {r : Registry} (hmem : x ∈ r.entries) (hname : x.1.answersTo name = true)
    (htier : x.1.tier ≤ tier) (hplan : x.1.plan name ops = .ok e)
    (hunique : ∀ y ∈ r.entries, y.1.answersTo name = true → ∀ e',
      y.1.plan name ops = .ok e' → y = x) : r.choose name ops tier = .ok (x, e) := by
  have hnamed : x ∈ r.named name := List.mem_filter.mpr ⟨hmem, hname⟩
  have hform : x ∈ (r.named name).filter (·.1.tier ≤ tier) :=
    List.mem_filter.mpr ⟨hnamed, decide_eq_true htier⟩
  unfold choose
  split
  · rename_i hnone
    rw [hnone] at hnamed
    cases hnamed
  · refine firstForm_of_unique hform hplan ?_ none
    intro y hy e' hplan'
    obtain ⟨hentry, hname'⟩ := List.mem_filter.mp (List.mem_filter.mp hy).1
    exact hunique y hentry hname' e' hplan'

/-- A form is chosen if it can represent a request, and if the request has a size whenever the form
can have one. -/
theorem choose_of_plan (hx : x ∈ full.entries) (hname : x.1.answersTo name = true)
    (htier : x.1.tier ≤ tier) (hsize : x.1.format.alwaysSized = true → ops.size ≠ none)
    (hplan : x.1.plan name ops = .ok e) : full.choose name ops tier = .ok (x, e) := by
  refine choose_of_unique hx hname htier hplan ?_
  intro y hy hyname e' hplan'
  by_contra hne
  have hd := mem_full hx
  have he := mem_full hy
  rcases of_pairwise Catalogue.toldApart hx hy (Ne.symm hne) with hapart | hapart
  · obtain ⟨hsized, -, hrivals⟩ := Definition.rivals_of_toldApart hd he hname hyname hapart
    exact hrivals ops ops rfl (hsize hsized) _ _ hplan hplan'
  · obtain ⟨-, hsized, hrivals⟩ := Definition.rivals_of_toldApart he hd hyname hname hapart
    exact hrivals ops ops rfl (hsize hsized) _ _ hplan' hplan

end Registry

end ColdFire
