import ColdFire.Proofs.Assembly.Reading

namespace ColdFire

open Text

namespace RegList

def maskOf (ns : List Nat) : UInt16 := ns.foldr (fun i mask => 1 <<< UInt16.ofNat i ||| mask) 0

def spell (run : Nat × Nat) : List Nat := List.range' run.1 (run.2 + 1 - run.1)

/-- A run of registers that exist, all of one bank. -/
structure IsRun (run : Nat × Nat) : Prop where
  le : run.1 ≤ run.2
  lt : run.2 < 16
  bank : run.2 < 8 ∨ 8 ≤ run.1

variable {ns ms : List Nat} {run : Nat × Nat} {mask : UInt16} {i : Nat}

theorem maskOf_append : maskOf (ns ++ ms) = maskOf ns ||| maskOf ms := by
  induction ns with
  | nil => simp [maskOf]
  | cons i ns ih =>
    rw [List.cons_append]
    change 1 <<< UInt16.ofNat i ||| maskOf (ns ++ ms) = 1 <<< UInt16.ofNat i ||| maskOf ns ||| maskOf ms
    rw [ih, UInt16.or_assoc]

theorem of_runs (h : ∀ i ∈ ns, i < 16) :
    (∀ run ∈ runs ns, IsRun run) ∧ (runs ns).flatMap spell = ns := by
  induction ns with
  | nil => exact ⟨List.forall_mem_nil _, rfl⟩
  | cons i rest ih =>
    obtain ⟨hi, hrest⟩ := List.forall_mem_cons.mp h
    obtain ⟨hruns, hspell⟩ := ih hrest
    have hsingle : IsRun (i, i) := ⟨Nat.le_refl _, hi, Nat.lt_or_ge _ _⟩
    rw [runs]
    split
    · -- `i` joins the run behind it if that starts with its neighbour of the same bank
      rename_i first last more heq
      rw [heq] at hruns hspell
      obtain ⟨hfirst, hmore⟩ := List.forall_mem_cons.mp hruns
      split
      · rename_i hnext
        obtain ⟨rfl, hbank⟩ := hnext
        have hle : i + 1 ≤ last := hfirst.le
        have hcross : last < 8 ∨ 8 ≤ i + 1 := hfirst.bank
        refine ⟨List.forall_mem_cons.mpr
          ⟨⟨by dsimp only; omega, hfirst.lt, by dsimp only; omega⟩, hmore⟩, ?_⟩
        rw [List.flatMap_cons] at hspell ⊢
        have hlong : spell (i, last) = i :: spell (i + 1, last) := by
          rw [spell, spell, ← List.range'_succ]
          congr 1
          omega
        rw [hlong, List.cons_append, hspell]
      · refine ⟨List.forall_mem_cons.mpr ⟨hsingle, hruns⟩, ?_⟩
        rw [List.flatMap_cons, hspell, spell, Nat.add_sub_cancel_left]
        rfl
    · rename_i heq
      rw [heq] at hspell
      rw [← hspell]
      refine ⟨List.forall_mem_singleton.mpr hsingle, ?_⟩
      simp [spell]

theorem bit_eq_testBit (hi : i < 16) : (mask >>> UInt16.ofNat i &&& 1 == 1) = mask.toNat.testBit i := by
  have hmod : i % 16 = i := Nat.mod_eq_of_lt hi
  rw [Bool.eq_iff_iff, beq_iff_eq, ← UInt16.toNat_inj, UInt16.toNat_and, UInt16.toNat_shiftRight]
  simp [Nat.testBit, Nat.and_comm, hmod, Nat.mod_eq_of_lt (show i < 65536 by omega),
    Nat.one_and_eq_mod_two]

theorem mem_members : i ∈ members mask ↔ i < 16 ∧ mask.toNat.testBit i = true := by
  rw [members, List.mem_filter, List.mem_range]
  refine and_congr_right fun hi => ?_
  rw [bit_eq_testBit hi]

theorem testBit_one (hi : i < 16) :
    (1 <<< UInt16.ofNat i : UInt16).toNat.testBit j = decide (i = j) := by
  have hmod : i % 16 = i := Nat.mod_eq_of_lt hi
  rw [UInt16.toNat_shiftLeft]
  have : 2 ^ i < 65536 := Nat.pow_lt_pow_of_lt (by decide) hi 
  have h2 : (1 <<< ((UInt16.ofNat i).toNat % 16)) % 2 ^ 16 = 2 ^ i := by
    simp [hmod, Nat.mod_eq_of_lt (show i < 65536 by omega), Nat.shiftLeft_eq, Nat.mod_eq_of_lt this]
  change ((1 <<< ((UInt16.ofNat i).toNat % 16)) % 2 ^ 16).testBit j = _
  rw [h2, Nat.testBit_two_pow]

theorem testBit_maskOf (h : ∀ i ∈ ns, i < 16) :
    (maskOf ns).toNat.testBit j = decide (j ∈ ns) := by
  induction ns with
  | nil => simp [maskOf]
  | cons i ns ih =>
    obtain ⟨hi, hns⟩ := List.forall_mem_cons.mp h
    change (1 <<< UInt16.ofNat i ||| maskOf ns).toNat.testBit j = _
    rw [UInt16.toNat_or, Nat.testBit_or, ih hns, testBit_one hi]
    simp [eq_comm]

theorem maskOf_members (mask : UInt16) : maskOf (members mask) = mask := by
  rw [← UInt16.toNat_inj]
  apply Nat.eq_of_testBit_eq
  intro j
  rw [testBit_maskOf fun i hi => (mem_members.1 hi).1]
  rw [Bool.eq_iff_iff, decide_eq_true_eq, mem_members, and_iff_right_iff_imp]
  intro hj
  have hlt := mask.toNat_lt
  exact Nat.lt_of_not_le fun hle => by
    rw [Nat.testBit_lt_two_pow (Nat.lt_of_lt_of_le hlt (Nat.pow_le_pow_right (by decide) hle))] at hj
    cases hj

/-- The runs of a mask are runs, and they spell its registers out. -/
theorem of_runs_members (mask : UInt16) :
    (∀ run ∈ runs (members mask), IsRun run) ∧ (runs (members mask)).flatMap spell = members mask :=
  of_runs fun _ hi => (mem_members.1 hi).1

theorem runs_ne_nil (h : ns ≠ []) : runs ns ≠ [] := by
  cases ns with
  | nil => exact absurd rfl h
  | cons i rest =>
    rw [runs]
    split
    · split <;> exact List.cons_ne_nil _ _
    · exact List.cons_ne_nil _ _

def regChars (i : Nat) : List Char :=
  if i < 8 then ['d', Nat.digitChar i] else ['a', Nat.digitChar (i - 8)]

def runChars (run : Nat × Nat) : List Char :=
  if run.1 = run.2 then regChars run.1 else regChars run.1 ++ '-' :: regChars run.2

theorem toList_regName (hi : i < 16) : (regName i).toList = regChars i := by
  unfold regName regChars
  split
  · simp [toString_text, Nat.toDigits_of_lt_base (show i < 10 by omega)]
  · simp [toString_text, Nat.toDigits_of_lt_base (show i - 8 < 10 by omega)]

theorem toList_text : (text mask).toList = ['/'].intercalate ((runs (members mask)).map runChars) := by
  obtain ⟨hruns, -⟩ := of_runs_members mask
  rw [text, String.toList_intercalate, List.map_map]
  congr 1
  refine List.map_congr_left fun run hrun => ?_
  have hrun := hruns run hrun
  dsimp only [Function.comp]
  unfold runChars
  split
  · rw [toList_regName (Nat.lt_of_le_of_lt hrun.le hrun.lt)]
  · simp [toList_regName (Nat.lt_of_le_of_lt hrun.le hrun.lt), toList_regName hrun.lt]

theorem rangeMask?_runChars (h : IsRun run) :
    runChars run ⊆ '-' :: plain ∧
      Assembly.Operand.rangeMask? (runChars run) = some (maskOf (spell run)) := by
  have hall : ∀ j < 16, ∀ i ≤ j, (j < 8 ∨ 8 ≤ i) → runChars (i, j) ⊆ '-' :: plain ∧
      Assembly.Operand.rangeMask? (runChars (i, j)) = some (maskOf (spell (i, j))) := by
    decide +kernel
  exact hall run.2 h.lt run.1 h.le h.bank

end RegList

namespace Assembly.Operand

open RegList

variable {mask : UInt16}

theorem foldlM_runs {rs : List (Nat × Nat)} (h : ∀ run ∈ rs, IsRun run) (acc : UInt16) :
    (rs.map runChars).foldlM (fun mask part => (rangeMask? (trim part)).map (mask ||| ·)) acc =
      some (acc ||| maskOf (rs.flatMap spell)) := by
  induction rs generalizing acc with
  | nil => simp [maskOf]
  | cons run rs ih =>
    obtain ⟨hrun, hrs⟩ := List.forall_mem_cons.mp h
    obtain ⟨hchars, hmask⟩ := rangeMask?_runChars hrun
    have htrim : trim (runChars run) = runChars run :=
      trim_of_ink (List.Subset.trans hchars (by decide))
    rw [List.map_cons, List.foldlM_cons, htrim, hmask, Option.map_some]
    change (rs.map runChars).foldlM _ (acc ||| maskOf (spell run)) = _
    rw [ih hrs, List.flatMap_cons, maskOf_append, UInt16.or_assoc]

theorem listMask?_text (hne : members mask ≠ []) :
    listMask? (RegList.text mask).toList = some mask := by
  obtain ⟨hruns, hspell⟩ := of_runs_members mask
  have hslash : ∀ c ∈ '-' :: plain, (c == '/') = false := List.all_iff_forall_prop.mp (by decide)
  have hpieces : pieces (· == '/') (RegList.text mask).toList = (runs (members mask)).map runChars := by
    rw [toList_text, pieces_intercalate (p := (· == '/')) ?_ ?_ (beq_self_eq_true _)]
    · simpa using runs_ne_nil hne
    · intro part hpart c hc
      obtain ⟨run, hrun, rfl⟩ := List.mem_map.mp hpart
      exact hslash c ((rangeMask?_runChars (hruns run hrun)).1 hc)
  rw [listMask?, hpieces, foldlM_runs hruns, hspell, maskOf_members, UInt16.zero_or]

end Assembly.Operand

end ColdFire
