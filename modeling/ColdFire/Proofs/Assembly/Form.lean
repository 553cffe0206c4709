import ColdFire.Assembly.Lowering
import ColdFire.Proofs.Instruction.Planned
import ColdFire.Proofs.Registry.Choose

namespace ColdFire

def Format.picksSize (f : Format) : Bool :=
  f.alwaysSized && f ∉ [bitInReg, bitInWord, branch, longBranch]

namespace Definition

variable {d : Definition} {name : String} {ops : Operands} {e : Encoding}

def isBranch (d : Definition) : Bool := d.opcode &&& 0xF000 == 0x6000

/-- Whether no request without a size suits the form. -/
def needsSize (d : Definition) : Bool := d.format.picksSize && d.defaultSize.isNone

/-- Whether two definitions are branches, which always get a size, or have no name in common, or have
one length for requests of one shape without a size. -/
def agreesUnsized (d e : Definition) : Bool :=
  d.isBranch || e.isBranch || d.needsSize || e.needsSize ||
    d.srcDemand.excludes e.srcDemand || d.dstDemand.excludes e.dstDemand ||
    (match d.format, e.format with
      | .dataReg _, .dataReg _ => true
      | _, _ => false) ||
    !(d.names.any fun name => e.names.contains name)

def takesLoneSrc (d : Definition) : Bool :=
  d.srcDemand != .absent && (d.dstDemand == .absent || d.dstDemand == .anything) &&
    d.format != .control

def takesLoneDst (d : Definition) : Bool :=
  d.dstDemand != .absent && (d.srcDemand == .absent || d.srcDemand == .anything) &&
    d.format != .control

theorem pickSize_of_plan (hpicks : d.format.picksSize = true) (h : d.plan name ops = .ok e) :
    ∃ size, d.pickSize ops.size = .ok size := by
  cases hf : d.format with
  | bitInReg | bitInWord | branch | longBranch | tpf | lea | pea | unlk | jump | bare | immWord
  | vector | cachePush | cacheTouch | loadStatus =>
    rw [hf] at hpicks
    exact absurd hpicks (by decide)
  | _ =>
    simp only [plan, hf, except_bind_eq_ok] at h
    exact ⟨h.choose, h.choose_spec.1⟩

theorem not_plan_of_needsSize (hneeds : d.needsSize = true) (hsize : ops.size = none)
    (h : d.plan name ops = .ok e) : False := by
  rw [needsSize, Bool.and_eq_true, Option.isNone_iff_eq_none] at hneeds
  obtain ⟨size, hpick⟩ := pickSize_of_plan hneeds.1 h
  rw [hsize, pickSize, hneeds.2] at hpick
  cases hpick

theorem takesLoneSrc_of_plan {size : Option Size} {ea : Ea}
    (h : d.plan name ⟨size, some ea, none⟩ = .ok e) : d.takesLoneSrc = true := by
  have hsrc := src_meets h
  have hdst := dst_meets h
  have hformat : d.format ≠ .control := by
    intro hf
    simp only [plan, hf, except_bind_eq_ok, Operands.requireControl_eq_ok] at h
    obtain ⟨_, -, _, -, _, ⟨hnone, -⟩, -⟩ := h
    cases hnone
  rw [takesLoneSrc, Bool.and_eq_true, Bool.and_eq_true, bne_iff_ne, bne_iff_ne]
  refine ⟨⟨?_, ?_⟩, hformat⟩
  · intro habsent
    rw [habsent] at hsrc
    cases hsrc
  · cases hdemand : d.dstDemand with
    | anything | absent => rfl
    | modes | special | list =>
      rw [hdemand] at hdst
      simp [Demand.Meets] at hdst

theorem takesLoneDst_of_plan {size : Option Size} {ea : Ea}
    (h : d.plan name ⟨size, none, some ea⟩ = .ok e) : d.takesLoneDst = true := by
  have hsrc := src_meets h
  have hdst := dst_meets h
  have hformat : d.format ≠ .control := by
    intro hf
    simp only [plan, hf, except_bind_eq_ok, Operands.require_eq_ok] at h
    obtain ⟨_, -, _, ⟨hnone, -⟩, -⟩ := h
    cases hnone
  rw [takesLoneDst, Bool.and_eq_true, Bool.and_eq_true, bne_iff_ne, bne_iff_ne]
  refine ⟨⟨?_, ?_⟩, hformat⟩
  · intro habsent
    rw [habsent] at hdst
    cases hdst
  · cases hdemand : d.srcDemand with
    | anything | absent => rfl
    | modes | special | list =>
      rw [hdemand] at hsrc
      simp [Demand.Meets] at hsrc

end Definition

namespace Catalogue

theorem agreesUnsized : all.Pairwise fun d e => d.agreesUnsized e = true :=
  pairwise_of_allPairs (by decide +kernel)

theorem not_both_sides : ∀ d ∈ all, ∀ e ∈ all, d.takesLoneSrc = true → e.takesLoneDst = true →
    (d.names.any fun name => e.names.contains name) = false := by
  have hsingle : ∀ d ∈ all, d.takesLoneSrc = true → ∀ e ∈ all, e.takesLoneDst = true →
      (d.names.any fun name => e.names.contains name) = false := by decide +kernel
  exact fun d hd e he hsrc hdst => hsingle d hd hsrc e he hdst

theorem isBranch_of_branch : ∀ d ∈ all, d.format = .branch → d.isBranch = true :=
  List.all_iff_forall_prop.mp rfl

end Catalogue

namespace Registry

variable {name : String} {ops ops' : Operands} {tier : Tier} {x y : Entry} {e e' : Encoding}

theorem isBranch_of_answersTo (hx : x ∈ full.entries) (hname : x.1.answersTo name = true)
    (h : x.1.isBranch = true) : full.isBranch name = true := by
  rw [isBranch, List.any_eq_true]
  exact ⟨x, List.mem_filter.mpr ⟨hx, hname⟩, h⟩

theorem length_of_agrees {d f : Definition} (hd : d ∈ Catalogue.all) (hf : f ∈ Catalogue.all)
    (hdname : d.answersTo name = true) (hfname : f.answersTo name = true)
    (hagrees : d.agreesUnsized f = true) (hdbranch : d.isBranch = false)
    (hfbranch : f.isBranch = false) (hshape : ops.shape = ops'.shape) (hnone : ops.size = none)
    (h : d.plan name ops = .ok e) (h' : f.plan name ops' = .ok e') : e.length = e'.length := by
  obtain ⟨hsame, hsrcs, hdsts⟩ := Operands.shape_eq_iff.1 hshape
  rw [Definition.agreesUnsized, Definition.share_of_answersTo hd hf hdname hfname, hdbranch,
    hfbranch] at hagrees
  simp only [Bool.not_true, Bool.false_or, Bool.or_false, Bool.or_eq_true] at hagrees
  rcases hagrees with (((hneeds | hneeds) | hsrc) | hdst) | hregs
  · exact (Definition.not_plan_of_needsSize hneeds hnone h).elim
  · exact (Definition.not_plan_of_needsSize hneeds (hsame ▸ hnone) h').elim
  · exact (Demand.not_meets_of_excludes hsrc (Demand.meets_congr hsrcs (Definition.src_meets h))
      (Definition.src_meets h')).elim
  · exact (Demand.not_meets_of_excludes hdst (Demand.meets_congr hdsts (Definition.dst_meets h))
      (Definition.dst_meets h')).elim
  · split at hregs
    · rename_i hdf hff
      rw [Definition.length_of_plan (by rw [hdf]; exact nofun) h,
        Definition.length_of_plan (by rw [hff]; exact nofun) h']
      simp only [Definition.extWords, hdf, hff]
    · cases hregs

/-- Requests of one shape have encodings of one length, whichever forms are chosen for them. A branch
needs a size for that. -/
theorem length_of_choose (hshape : ops.shape = ops'.shape)
    (hbranch : full.isBranch name = true → ops.size ≠ none)
    (h : full.choose name ops tier = .ok (x, e)) (h' : full.choose name ops' tier = .ok (y, e')) :
    e.length = e'.length := by
  obtain ⟨hx, hxname, -, hxplan⟩ := of_choose h
  obtain ⟨hy, hyname, -, hyplan⟩ := of_choose h'
  have hsame := (Operands.shape_eq_iff.1 hshape).1
  -- two forms for one shape are told apart by a size, or agree on the length without one
  by_cases heq : x = y
  · subst heq
    have hsized (hf : x.1.format = .branch) : ops.size ≠ none :=
      hbranch (isBranch_of_answersTo hx hxname (Catalogue.isBranch_of_branch _ (mem_full hx) hf))
    rw [Definition.length_of_plan hsized hxplan,
      Definition.length_of_plan (fun hf => hsame ▸ hsized hf) hyplan,
      ← Definition.extWords_shape, hshape, Definition.extWords_shape]
  · cases hsize : ops.size with
    | some size =>
      have hne : ops.size ≠ none := by simp [hsize]
      rcases of_pairwise Catalogue.toldApart hx hy heq with happart | hapart
      · obtain ⟨-, -, hrivals⟩ :=
          Definition.rivals_of_toldApart (mem_full hx) (mem_full hy) hxname hyname happart
        exact (hrivals _ _ hshape hne _ _ hxplan hyplan).elim
      · obtain ⟨-, -, hrivals⟩ :=
          Definition.rivals_of_toldApart (mem_full hy) (mem_full hx) hyname hxname hapart
        exact (hrivals _ _ hshape.symm (hsame ▸ hne) _ _ hyplan hxplan).elim
    | none =>
      have hno {z : Entry} (hz : z ∈ full.entries) (hzname : z.1.answersTo name = true) :
          z.1.isBranch = false :=
        Bool.eq_false_iff.mpr fun hb => hbranch (isBranch_of_answersTo hz hzname hb) hsize
      rcases of_pairwise Catalogue.agreesUnsized hx hy heq with hagrees | hagrees
      · exact length_of_agrees (mem_full hx) (mem_full hy) hxname hyname hagrees (hno hx hxname)
          (hno hy hyname) hshape hsize hxplan hyplan
      · exact (length_of_agrees (mem_full hy) (mem_full hx) hyname hxname hagrees (hno hy hyname)
          (hno hx hxname) hshape.symm (hsame ▸ hsize) hyplan hxplan).symm

theorem select_eq_ok {r : Registry} :
    r.select name ops tier = .ok x ↔ ∃ e, r.choose name ops tier = .ok (x, e) := by
  rw [select, except_bind_eq_ok]
  constructor
  · rintro ⟨⟨y, e⟩, hchoose, h⟩
    obtain rfl := except_pure_eq_ok.1 h
    exact ⟨e, hchoose⟩
  · rintro ⟨e, hchoose⟩
    exact ⟨_, hchoose, rfl⟩

theorem not_select_both {size : Option Size} {ea ea' : Ea}
    (h : full.select name ⟨size, some ea, none⟩ tier = .ok x)
    (h' : full.select name ⟨size, none, some ea'⟩ tier = .ok y) : False := by
  obtain ⟨_, h⟩ := select_eq_ok.1 h
  obtain ⟨_, h'⟩ := select_eq_ok.1 h'
  obtain ⟨hx, hxname, -, hxplan⟩ := of_choose h
  obtain ⟨hy, hyname, -, hyplan⟩ := of_choose h'
  have hshare := Definition.share_of_answersTo (mem_full hx) (mem_full hy) hxname hyname
  rw [Catalogue.not_both_sides _ (mem_full hx) _ (mem_full hy)
    (Definition.takesLoneSrc_of_plan hxplan) (Definition.takesLoneDst_of_plan hyplan)] at hshare
  cases hshare

end Registry

namespace Assembler

variable {tier : Tier} {mnemonic : String} {size : Option Size} {ops ops' : Operands}

theorem arrangeOne_eq_ok {a : Assembler} {ea : Ea} (h : a.arrangeOne mnemonic size ea = .ok ops) :
    (ops = ⟨size, some ea, none⟩ ∨ ops = ⟨size, none, some ea⟩) ∧
      ∃ x, a.registry.select mnemonic ops a.tier = .ok x := by
  unfold arrangeOne at h
  dsimp only at h
  split at h
  · rename_i x hx
    cases h
    exact ⟨.inl rfl, x, hx⟩
  · split at h
    · cases h
      exact ⟨.inr rfl, _, ‹_›⟩
    all_goals cases h

theorem arrange_shape {eas eas' : List Ea} (hshape : eas.map Ea.shape = eas'.map Ea.shape)
    (h : (Assembler.mk .full tier).arrange mnemonic size eas = .ok ops)
    (h' : (Assembler.mk .full tier).arrange mnemonic size eas' = .ok ops') :
    ops.shape = ops'.shape := by
  unfold arrange at h h'
  split at h
  · rename_i ea
    obtain ⟨ea', rfl, hea⟩ := List.map_eq_singleton_iff.mp hshape.symm
    obtain ⟨hops, x, hx⟩ := arrangeOne_eq_ok h
    obtain ⟨hops', y, hy⟩ := arrangeOne_eq_ok h'
    rcases hops with rfl | rfl <;> rcases hops' with rfl | rfl
    · simp [Operands.shape, hea]
    · exact (Registry.not_select_both hx hy).elim
    · exact (Registry.not_select_both hy hx).elim
    · simp [Operands.shape, hea]
  · rename_i hmany
    split at h'
    · rename_i ea'
      obtain ⟨ea, rfl, -⟩ := List.map_eq_singleton_iff.mp hshape
      exact absurd rfl (hmany ea)
    · cases h
      cases h'
      simp only [Operands.shape, ← List.getElem?_map, hshape]

end Assembler

end ColdFire
