import ColdFire.Assembly.Lowering
import ColdFire.Proofs.Assembly.Form
import ColdFire.Proofs.Registry.CalcSize
import ColdFire.Proofs.Registry.EncodeDecode

namespace ColdFire

theorem except_error_iff {ε α : Type} {x : Except ε α} :
    (∃ err, x = .error err) ↔ ¬ ∃ a, x = .ok a := by
  cases x <;> simp

def Operands.toOffset (offset : Int32) (size : Option Size) : Operands :=
  ⟨size, some (.relative offset), none⟩

theorem Size.find?_eq_some {p : Size → Bool} {s : Size} :
    [Size.byte, .word, .long].find? p = some s ↔
      p s = true ∧ ∀ t, t.bytes < s.bytes → p t = false := by
  constructor
  · intro h
    refine ⟨List.find?_some h, fun t ht => ?_⟩
    cases hbyte : p .byte <;> cases hword : p .word <;> cases hlong : p .long <;>
      cases s <;> cases t <;> simp_all [Size.bytes]
  · rintro ⟨hs, hleast⟩
    have hbyte := hleast .byte
    have hword := hleast .word
    cases s <;> simp_all [Size.bytes]

namespace Format

variable {offset : Int32}

def displacementSize (f : Format) (offset : Int32) : Size :=
  if f = .longBranch then .long else if offsetFits offset .byte then .byte else .word

theorem branches_displacementSize {f : Format} (hf : f = .branch ∨ f = .longBranch) :
    f.branches offset (some (f.displacementSize offset)) = f.branches offset none := by
  rcases hf with rfl | rfl
  · simp only [displacementSize, reduceCtorEq, if_false]
    cases hbyte : offsetFits offset .byte with
    | true => simp [branches, hbyte]
    | false => simp [branches, hbyte]
  · rfl

/-- The least size at which a form can branch is the one that it picks. -/
theorem displacementSize_of_least {f : Format} (hf : f = .branch ∨ f = .longBranch) {s : Size}
    (hs : f.branches offset (some s) = true)
    (hleast : ∀ t, t.bytes < s.bytes → f.branches offset (some t) = false) :
    f.displacementSize offset = s := by
  rcases hf with rfl | rfl
  · cases s with
    | byte => exact if_pos hs
    | word =>
      have hbyte : offsetFits offset .byte = false := hleast .byte (by decide)
      simp [displacementSize, hbyte]
    | long => cases hs
  · cases s with
    | byte | word => cases hs
    | long => rfl

theorem branches_none_iff {f : Format} (hf : f = .branch ∨ f = .longBranch) :
    f.branches offset none = true ↔ ∃ s, f.branches offset (some s) = true := by
  constructor
  · intro h
    exact ⟨_, (branches_displacementSize hf).trans h⟩
  · rintro ⟨s, hs⟩
    rcases hf with rfl | rfl <;> cases s
    all_goals simp_all [branches]

end Format

namespace Definition

variable {d : Definition} {name : String} {offset : Int32} {e : Encoding}

def displaced (d : Definition) (offset : Int32) : Size → Encoding
  | .byte => ⟨Field.branchDisp.set d.opcode offset.toInt8.toUInt8.toUInt16, []⟩
  | .word => ⟨d.opcode, [.word offset.toInt16.toUInt16]⟩
  | .long => ⟨d.opcode, [.long offset.toUInt32]⟩

section Branch

variable (hf : d.format = .branch ∨ d.format = .longBranch)

include hf

theorem plan_toOffset {size : Size} :
    d.plan name (.toOffset offset (some size)) = .ok e ↔
      d.format.branches offset (some size) = true ∧ d.displaced offset size = e := by
  rcases hf with hf | hf <;> cases size
  all_goals
    simp only [plan, hf, Operands.toOffset, except_bind_eq_ok, Operands.requireTarget_eq_ok]
    simp [Format.branches, displaced, except_throw_ne_ok, except_guard_eq_ok, except_pure_eq_ok,
      -bind_pure_comp]

theorem plan_toOffset_none (name : String) (offset : Int32) :
    d.plan name (.toOffset offset none) =
      d.plan name (.toOffset offset (some (d.format.displacementSize offset))) := by
  rcases hf with hf | hf
  · cases hbyte : Format.offsetFits offset .byte with
    | true | false =>
      simp [plan, hf, Operands.toOffset, Operands.requireTarget, Format.displacementSize, hbyte]
  · rw [hf]
    simp only [plan, hf]
    rfl

theorem plan_toOffset_iff (name : String) (offset : Int32) {size : Option Size} :
    (∃ e, d.plan name (.toOffset offset size) = .ok e) ↔ d.format.branches offset size = true := by
  have hsized (s : Size) : (∃ e, d.plan name (.toOffset offset (some s)) = .ok e) ↔
      d.format.branches offset (some s) = true := by
    simp [plan_toOffset hf]
  cases size with
  | some s => exact hsized s
  | none => rw [plan_toOffset_none hf, hsized, Format.branches_displacementSize hf]

end Branch

end Definition

namespace Catalogue

/-- Every name of a branch has two forms: a short one on every tier, and behind it a long one. -/
theorem branch_forms : ∀ d ∈ all, d.isBranch = true → ∀ known ∈ d.names,
    ((Registry.full.named known).map fun x => (x.1.format, x.1.tier)) =
      [(.branch, .a), (.longBranch, .b)] := by
  decide +kernel

end Catalogue

namespace Registry

variable {name : String} {ops : Operands} {offset : Int32} {tier : Tier} {x : Entry} {e : Encoding}

theorem named_congr (r : Registry) {known : String}
    (h : Text.lower known.toList = Text.lower name.toList) : r.named name = r.named known := by
  unfold named Definition.answersTo
  rw [h]

theorem firstForm_cons_eq_ok {noForm : EncodeError} {failed : Option EncodeError} {y : Entry}
    {rest : List Entry} : firstForm name ops noForm failed (y :: rest) = .ok (x, e) ↔
      (x = y ∧ y.1.plan name ops = .ok e) ∨
      ∃ err, y.1.plan name ops = .error err ∧
        firstForm name ops noForm (some (laterError failed err)) rest = .ok (x, e) := by
  rw [firstForm]
  cases hplan : y.1.plan name ops with
  | ok encoding => simp [eq_comm]
  | error err => simp

theorem encode_ok_iff_choose (hscales : ops.haveScales = true) :
    (∃ words, full.encode name ops tier = .ok words) ↔ ∃ y, full.choose name ops tier = .ok y := by
  rw [encode]
  constructor
  · rintro ⟨words, h⟩
    obtain ⟨y, hchoose, -⟩ := except_bind_eq_ok.1 h
    exact ⟨y, hchoose⟩
  · rintro ⟨⟨x, e⟩, hchoose⟩
    have hplan := (of_choose hchoose).2.2.2
    obtain ⟨words, hwords⟩ :=
      Encoding.words_ok_iff.2 ((Definition.hasScale_of_plan hplan).trans hscales)
    exact ⟨words, except_bind_eq_ok.2 ⟨(x, e), hchoose, hwords⟩⟩

def canBranch (r : Registry) (name : String) (offset : Int32) (tier : Tier) (size : Option Size) :
    Bool :=
  (r.named name).any fun e => e.1.tier ≤ tier && e.1.format.branches offset size

theorem branchSize?_eq (r : Registry) : r.branchSize? name offset tier =
    [Size.byte, .word, .long].find? fun size => r.canBranch name offset tier (some size) := rfl

/-- The two forms of a branch: the short one stands in front. -/
structure BranchForms (name : String) (short long : Entry) : Prop where
  named : full.named name = [short, long]
  shortFormat : short.1.format = .branch
  shortTier : short.1.tier = .a
  longFormat : long.1.format = .longBranch

theorem branchForms_of_isBranch (h : full.isBranch name = true) :
    ∃ short long, BranchForms name short long := by
  rw [isBranch, List.any_eq_true] at h
  obtain ⟨x, hx, hopcode⟩ := h
  obtain ⟨hentry, hname⟩ := List.mem_filter.mp hx
  obtain ⟨known, hknown, hlower⟩ := Definition.answersTo_iff.1 hname
  have hforms := Catalogue.branch_forms x.1 (mem_full hentry) hopcode known hknown
  rw [← named_congr full hlower, List.map_eq_cons_iff] at hforms
  obtain ⟨short, rest, hnamed, hshort, hrest⟩ := hforms
  rw [List.map_eq_cons_iff] at hrest
  obtain ⟨long, none, rfl, hlong, hnone⟩ := hrest
  rw [List.map_eq_nil_iff.mp hnone] at hnamed
  injection hshort with hformat htier
  injection hlong with hlong
  exact ⟨short, long, hnamed, hformat, htier, hlong⟩

namespace BranchForms

variable {short long : Entry} (h : BranchForms name short long)

include h

theorem short_le (tier : Tier) : short.1.tier ≤ tier := by
  rw [h.shortTier]
  exact Nat.zero_le _

/-- The long form is chosen only where the short one does not suit the request. -/
theorem choose_eq_ok : full.choose name ops tier = .ok (x, e) ↔
    (x = short ∧ short.1.plan name ops = .ok e) ∨
    ((∃ err, short.1.plan name ops = .error err) ∧ x = long ∧ long.1.tier ≤ tier ∧
      long.1.plan name ops = .ok e) := by
  have hforms : (full.named name).filter (·.1.tier ≤ tier) =
      short :: if long.1.tier ≤ tier then [long] else [] := by
    simp [h.named, List.filter_cons, h.short_le tier]
  have hnone (failed : Option EncodeError) :
      firstForm name ops (.notInTier name tier) failed [] ≠ .ok (x, e) := nofun
  have hchoose : full.choose name ops tier = firstForm name ops (.notInTier name tier) none
      ((full.named name).filter (·.1.tier ≤ tier)) := by
    rw [choose, h.named]
  rw [hchoose, hforms, firstForm_cons_eq_ok]
  by_cases hlong : long.1.tier ≤ tier
  · simp [hlong, firstForm_cons_eq_ok, hnone]
  · simp [hlong, hnone]

theorem not_planned {size : Option Size} (hnot : short.1.format.branches offset size = false) :
    ∃ err, short.1.plan name (.toOffset offset size) = .error err := by
  rw [except_error_iff, Definition.plan_toOffset_iff (.inl h.shortFormat), hnot]
  exact Bool.false_ne_true

theorem canBranch_eq {size : Option Size} : full.canBranch name offset tier size =
    (short.1.format.branches offset size ||
      decide (long.1.tier ≤ tier) && long.1.format.branches offset size) := by
  simp [canBranch, h.named, h.short_le tier]

theorem encode_ok_iff {size : Option Size} :
    (∃ words, full.encode name (.toOffset offset size) tier = .ok words) ↔
      full.canBranch name offset tier size = true := by
  rw [encode_ok_iff_choose rfl, h.canBranch_eq, Bool.or_eq_true, Bool.and_eq_true,
    decide_eq_true_eq, ← Definition.plan_toOffset_iff (.inl h.shortFormat) name offset,
    ← Definition.plan_toOffset_iff (.inr h.longFormat) name offset, Prod.exists]
  simp only [h.choose_eq_ok]
  cases hplan : short.1.plan name (.toOffset offset size) with
  | ok encoding => simp
  | error err => simp

/-- The size that is found for a displacement is the one that the encoder picks. -/
theorem choose_of_branchSize {s : Size} (hs : full.branchSize? name offset tier = some s) :
    ∃ x e, full.choose name (.toOffset offset none) tier = .ok (x, e) ∧
      full.choose name (.toOffset offset (some s)) tier = .ok (x, e) ∧
      x.1.format.alwaysSized = true := by
  rw [branchSize?_eq, Size.find?_eq_some] at hs
  obtain ⟨hcan, hleast⟩ := hs
  have hsmaller (t : Size) (ht : t.bytes < s.bytes) :
      short.1.format.branches offset (some t) = false ∧
        (long.1.tier ≤ tier → long.1.format.branches offset (some t) = false) := by
    have hcannot := hleast t ht
    rw [h.canBranch_eq] at hcannot
    simpa using hcannot
  rw [h.canBranch_eq, Bool.or_eq_true, Bool.and_eq_true, decide_eq_true_eq] at hcan
  rcases hcan with hshort | ⟨htier, hlong⟩
  · have hbranch : short.1.format = .branch ∨ short.1.format = .longBranch := .inl h.shortFormat
    have hsize := Format.displacementSize_of_least hbranch hshort fun t ht => (hsmaller t ht).1
    obtain ⟨e, hplan⟩ := (Definition.plan_toOffset_iff hbranch name offset).2 hshort
    have hunsized := Definition.plan_toOffset_none hbranch name offset
    rw [hsize, hplan] at hunsized
    exact ⟨short, e, h.choose_eq_ok.2 (.inl ⟨rfl, hunsized⟩),
      h.choose_eq_ok.2 (.inl ⟨rfl, hplan⟩), by rw [h.shortFormat]; rfl⟩
  · have hbranch : long.1.format = .branch ∨ long.1.format = .longBranch := .inr h.longFormat
    have hsize := Format.displacementSize_of_least hbranch hlong fun t ht => (hsmaller t ht).2 htier
    obtain ⟨e, hplan⟩ := (Definition.plan_toOffset_iff hbranch name offset).2 hlong
    have hunsized := Definition.plan_toOffset_none hbranch name offset
    rw [hsize, hplan] at hunsized
    -- the short form suits neither request
    obtain rfl : Size.long = s := by
      rw [h.longFormat] at hsize
      exact hsize
    have hsome (t : Size) : short.1.format.branches offset (some t) = false := by
      cases t with
      | byte | word => exact (hsmaller _ (by decide)).1
      | long =>
        rw [h.shortFormat]
        rfl
    have hnone : short.1.format.branches offset none = false := by
      rw [Bool.eq_false_iff, ne_eq, Format.branches_none_iff (.inl h.shortFormat)]
      rintro ⟨t, ht⟩
      exact absurd (hsome t) (Bool.ne_false_iff.mpr ht)
    exact ⟨long, e, h.choose_eq_ok.2 (.inr ⟨h.not_planned hnone, rfl, htier, hunsized⟩),
      h.choose_eq_ok.2 (.inr ⟨h.not_planned (hsome .long), rfl, htier, hplan⟩),
      by rw [h.longFormat]; rfl⟩

theorem canBranch_none_iff : full.canBranch name offset tier none = true ↔
    ∃ s, full.canBranch name offset tier (some s) = true := by
  simp only [h.canBranch_eq, Bool.or_eq_true, Bool.and_eq_true, exists_or, exists_and_left,
    Format.branches_none_iff (.inl h.shortFormat), Format.branches_none_iff (.inr h.longFormat)]

theorem isSome_branchSize : (full.branchSize? name offset tier).isSome = true ↔
    full.canBranch name offset tier none = true := by
  have hmem (s : Size) : s ∈ [Size.byte, .word, .long] := by cases s <;> decide
  rw [h.canBranch_none_iff]
  simp only [branchSize?_eq, List.find?_isSome, hmem, true_and]

end BranchForms

theorem decode_of_choose {s : Size} {words : List UInt16}
    (h : full.choose name (.toOffset offset (some s)) tier = .ok (x, e))
    (hsized : x.1.format.alwaysSized = true) (hwords : e.words = .ok words) (more : List UInt16)
    (address : UInt32) :
    ∃ source decoded c, WordSource.ofList? (words ++ more) address = some source ∧
      full.decode tier source .start = .ok (some decoded) c ∧
      decoded.toOperands = .toOffset offset (some s) ∧ decoded.extWords + 1 = words.length := by
  have hregs : (Operands.toOffset offset (some s)).RegistersExist := by
    constructor
    · rintro _ ⟨⟩
      trivial
    · rintro _ ⟨⟩
  obtain ⟨exts, rfl, hstand⟩ := Encoding.stand_of_words hwords
  have hholds : (WordSource.ofWords e.opword (exts ++ more) address).Holds 0 exts :=
    WordSource.holds_ofWords.2 (List.prefix_append exts more)
  obtain ⟨hlookup, hrereads⟩ := rereads_of_choose hregs h rfl (hstand _ hholds)
  obtain ⟨name', ops', mark, hread, hreturned, -⟩ := hrereads.read
  refine ⟨_, _, _, rfl, decode_of_read hlookup hread, ?_, rfl⟩
  obtain ⟨size, hsize⟩ := Option.ne_none_iff_exists'.mp (Format.read_size hread hsized)
  obtain rfl := hreturned.size s size rfl hsize
  have hsrc : ops'.src = some (.relative offset) := hreturned.src
  have hdst : ops'.dst = none := hreturned.dst
  change (⟨ops'.size, ops'.src, ops'.dst⟩ : Operands) = _
  rw [hsize, hsrc, hdst]
  rfl

/-- The size that is found for a branch is the least that it is encoded at on a tier. Without a size
it is encoded if one is found, and then to the words of that size, from which it is decoded with the
offset and the size. If none is found, it is not encoded at all. -/
theorem branchSize_agrees (hname : full.isBranch name = true) (offset : Int32) (tier : Tier) :
    let encoded (size : Option Size) := full.encode name (.toOffset offset size) tier
    (∀ s, full.branchSize? name offset tier = some s ↔
      (∃ words, encoded (some s) = .ok words) ∧
        ∀ t, t.bytes < s.bytes → ∃ err, encoded (some t) = .error err) ∧
    ((∃ words, encoded none = .ok words) ↔ (full.branchSize? name offset tier).isSome = true) ∧
    (∀ s, full.branchSize? name offset tier = some s → ∃ words, encoded none = .ok words ∧
      encoded (some s) = .ok words ∧ ∀ more address, ∃ source decoded c,
        WordSource.ofList? (words ++ more) address = some source ∧
        full.decode tier source .start = .ok (some decoded) c ∧
        decoded.toOperands = .toOffset offset (some s) ∧ decoded.extWords + 1 = words.length) ∧
    (full.branchSize? name offset tier = none → ∀ size, ∃ err, encoded size = .error err) := by
  obtain ⟨short, long, hforms⟩ := branchForms_of_isBranch hname
  intro encoded
  have hok (size : Option Size) : (∃ words, encoded size = .ok words) ↔
      full.canBranch name offset tier size = true := hforms.encode_ok_iff
  have herror (size : Option Size) : (∃ err, encoded size = .error err) ↔
      full.canBranch name offset tier size = false := by
    rw [except_error_iff, hok, Bool.not_eq_true]
  -- each clause is about the sizes that one of the two forms of the branch can be encoded at
  refine ⟨fun s => ?_, (hok none).trans hforms.isSome_branchSize.symm, fun s hs => ?_,
    fun hnone size => ?_⟩
  · simp only [hok, herror]
    rw [branchSize?_eq, Size.find?_eq_some]
  · obtain ⟨x, e, hunsized, hsized, hformat⟩ := hforms.choose_of_branchSize hs
    obtain ⟨words, hwords⟩ :=
      Encoding.words_ok_iff.2 (Definition.hasScale_of_plan (of_choose hsized).2.2.2)
    exact ⟨words, except_bind_eq_ok.2 ⟨_, hunsized, hwords⟩,
      except_bind_eq_ok.2 ⟨_, hsized, hwords⟩, decode_of_choose hsized hformat hwords⟩
  · rw [herror, Bool.eq_false_iff]
    intro hcan
    have hcan' : full.canBranch name offset tier none = true := by
      cases size with
      | none => exact hcan
      | some s => exact hforms.canBranch_none_iff.2 ⟨s, hcan⟩
    rw [← hforms.isSome_branchSize, hnone] at hcan'
    cases hcan'

/-- A displacement of −1 to a branch by another of its names, in capitals: as a byte it would look like
the mark of the long form. -/
theorem branchSize_agrees_minus_one :
    full.isBranch "BLO" = true ∧ full.branchSize? "BLO" (-1) .b = some .word ∧
      full.encode "BLO" (.toOffset (-1) none) .b = .ok [0x6500, 0xFFFF] ∧
      (∃ err, full.encode "BLO" (.toOffset (-1) (some .byte)) .b = .error err) ∧
      ∃ source decoded c, WordSource.ofList? [0x6500, 0xFFFF, 0x4E71] 0x1000 = some source ∧
        full.decode .b source .start = .ok (some decoded) c ∧
        decoded.toOperands = .toOffset (-1) (some .word) ∧ decoded.extWords = 1 := by
  have hname : full.isBranch "BLO" = true := by decide +kernel
  have hsize : full.branchSize? "BLO" (-1) .b = some .word := by decide +kernel
  have hwords : full.encode "BLO" (.toOffset (-1) none) .b = .ok [0x6500, 0xFFFF] := rfl
  obtain ⟨hleast, -, hsame, -⟩ := branchSize_agrees hname (-1) .b
  obtain ⟨words, hunsized, -, hdecode⟩ := hsame .word hsize
  obtain rfl := Except.ok.inj (hwords.symm.trans hunsized)
  obtain ⟨source, decoded, c, hsource, hdecoded, hops, hlen⟩ := hdecode [0x4E71] 0x1000
  exact ⟨hname, hsize, hwords, ((hleast .word).1 hsize).2 .byte (by decide), source, decoded, c,
    hsource, hdecoded, hops, Nat.succ.inj hlen⟩

end Registry

end ColdFire
