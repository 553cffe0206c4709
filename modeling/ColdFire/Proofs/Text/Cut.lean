import ColdFire.Text.Blank
import Mathlib.Data.Bool.AllAny
import Mathlib.Data.List.DropRight
import Mathlib.Data.List.TakeWhile

namespace ColdFire.Text

variable {p : Char → Bool} {cs before after mark : List Char} {c : Char}

theorem trim_of_ends (hfirst : ∀ c, cs.head? = some c → isBlank c = false)
    (hlast : ∀ c, cs.getLast? = some c → isBlank c = false) : trim cs = cs := by
  have hkeep (ds : List Char) (h : ∀ c, ds.head? = some c → isBlank c = false) :
      ds.dropWhile isBlank = ds := by
    cases ds with
    | nil => rfl
    | cons d ds => rw [List.dropWhile_cons_of_neg (by simp [h d rfl])]
  rw [trim, trimStart, trimEnd, hkeep cs hfirst, hkeep, List.reverse_reverse]
  rw [List.head?_reverse]
  exact hlast

theorem trim_of_all (h : ∀ c ∈ cs, isBlank c = false) : trim cs = cs :=
  trim_of_ends (fun c hc => h c (List.mem_of_head? hc)) fun c hc => h c (List.mem_of_getLast? hc)

theorem mem_trim (hc : c ∈ cs) (hblank : isBlank c = false) : c ∈ trim cs := by
  have hkeep (ds : List Char) (hd : c ∈ ds) : c ∈ ds.dropWhile isBlank := by
    rw [← List.takeWhile_append_dropWhile (p := isBlank) (l := ds), List.mem_append] at hd
    rcases hd with htaken | hkept
    · rw [List.mem_takeWhile_imp htaken] at hblank
      cases hblank
    · exact hkept
  rw [trim, trimStart, trimEnd, List.mem_reverse]
  exact hkeep _ (List.mem_reverse.mpr (hkeep cs hc))

theorem cutAt?_eq_none (h : ∀ c ∈ cs, p c = false) : cutAt? p cs = none := by
  induction cs with
  | nil => rfl
  | cons c cs ih =>
    rw [cutAt?, if_neg (by simp [h c List.mem_cons_self]),
      ih fun d hd => h d (List.mem_cons_of_mem _ hd)]
    rfl

theorem cutAt?_eq_none_iff : cutAt? p cs = none ↔ ∀ c ∈ cs, p c = false := by
  refine ⟨fun h => ?_, cutAt?_eq_none⟩
  induction cs with
  | nil => exact List.forall_mem_nil _
  | cons c cs ih =>
    rw [cutAt?] at h
    split at h
    · cases h
    · rename_i hc
      exact List.forall_mem_cons.mpr ⟨Bool.eq_false_iff.mpr hc, ih (Option.map_eq_none_iff.mp h)⟩

theorem cutAt?_append_left (h : ∀ c ∈ before, p c = false) :
    cutAt? p (before ++ cs) = (cutAt? p cs).map fun (x, y) => (before ++ x, y) := by
  induction before with
  | nil => simp
  | cons b before ih =>
    obtain ⟨hb, hbefore⟩ := List.forall_mem_cons.mp h
    rw [List.cons_append, cutAt?, if_neg (by simp [hb]), ih hbefore, Option.map_map]
    rfl

theorem cutAt?_append (h : ∀ c ∈ before, p c = false) (hc : p c = true) :
    cutAt? p (before ++ c :: after) = some (before, after) := by
  rw [cutAt?_append_left h, cutAt?, if_pos hc, Option.map_some]
  dsimp only
  rw [List.append_nil]

theorem of_cutAt? (h : cutAt? p cs = some (before, after)) :
    (∀ c ∈ before, p c = false) ∧ ∃ c, p c = true ∧ cs = before ++ c :: after := by
  induction cs generalizing before with
  | nil => cases h
  | cons c cs ih =>
    rw [cutAt?] at h
    split at h
    · rename_i hc
      cases h
      exact ⟨List.forall_mem_nil _, c, hc, rfl⟩
    · rename_i hc
      obtain ⟨⟨x, y⟩, hcut, heq⟩ := Option.map_eq_some_iff.mp h
      cases heq
      obtain ⟨hbefore, d, hd, rfl⟩ := ih hcut
      exact ⟨List.forall_mem_cons.mpr ⟨Bool.eq_false_iff.mpr hc, hbefore⟩, d, hd, rfl⟩

theorem pieces_of_all (h : ∀ c ∈ cs, p c = false) : pieces p cs = [cs] := by
  induction cs with
  | nil => rfl
  | cons c cs ih =>
    rw [pieces, if_neg (by simp [h c List.mem_cons_self]),
      ih fun d hd => h d (List.mem_cons_of_mem _ hd)]

theorem pieces_cons (hc : p c = false) : ∃ piece rest, pieces p (c :: cs) = (c :: piece) :: rest := by
  rw [pieces, if_neg (by simp [hc])]
  split
  · exact ⟨[], [], rfl⟩
  · exact ⟨_, _, rfl⟩

theorem pieces_append (h : ∀ c ∈ before, p c = false) (hc : p c = true) :
    pieces p (before ++ c :: after) = before :: pieces p after := by
  induction before with
  | nil => rw [List.nil_append, pieces, if_pos hc]
  | cons b before ih =>
    rw [List.cons_append, pieces, if_neg (by simp [h b List.mem_cons_self]),
      ih fun d hd => h d (List.mem_cons_of_mem _ hd)]

/-- The pieces between separators are those that were joined with separators. -/
theorem pieces_intercalate {parts : List (List Char)} (hne : parts ≠ [])
    (h : ∀ part ∈ parts, ∀ c ∈ part, p c = false) (hc : p c = true) :
    pieces p ([c].intercalate parts) = parts := by
  induction parts with
  | nil => exact absurd rfl hne
  | cons part rest ih =>
    obtain ⟨hpart, hrest⟩ := List.forall_mem_cons.mp h
    cases rest with
    | nil => simp [List.intercalate, pieces_of_all hpart]
    | cons next rest =>
      rw [List.intercalate_cons_cons, List.append_assoc, List.singleton_append, pieces_append hpart hc,
        ih (List.cons_ne_nil _ _) hrest]

theorem intercalate_subset {parts : List (List Char)} {ink : List Char} (hc : c ∈ ink)
    (h : ∀ part ∈ parts, part ⊆ ink) : [c].intercalate parts ⊆ ink := by
  induction parts with
  | nil => exact List.nil_subset _
  | cons part rest ih =>
    obtain ⟨hpart, hrest⟩ := List.forall_mem_cons.mp h
    cases rest with
    | nil => simpa [List.intercalate] using hpart
    | cons next rest =>
      rw [List.intercalate_cons_cons, List.append_subset, List.append_subset, List.cons_subset]
      exact ⟨⟨hpart, hc, List.nil_subset _⟩, ih hrest⟩

@[simp] theorem afterMark?_append : afterMark? mark (mark ++ cs) = some cs := by
  rw [afterMark?, if_pos (by simp), List.drop_left]

@[simp] theorem beforeMark?_append : beforeMark? mark (cs ++ mark) = some cs := by
  rw [beforeMark?, if_pos (by simp), List.length_append, Nat.add_sub_cancel, List.take_left]

theorem afterMark?_eq_none (hc : c ∈ mark) (h : c ∉ cs) : afterMark? mark cs = none := by
  rw [afterMark?, if_neg]
  intro hprefix
  exact h ((List.isPrefixOf_iff_prefix.mp hprefix).subset hc)

theorem pieces_ne_nil : pieces p cs ≠ [] := by
  cases cs with
  | nil => exact List.cons_ne_nil _ _
  | cons c cs =>
    rw [pieces]
    split
    · exact List.cons_ne_nil _ _
    · split <;> exact List.cons_ne_nil _ _

theorem beforeMark?_eq_none (hc : c ∈ mark) (h : c ∉ cs) : beforeMark? mark cs = none := by
  rw [beforeMark?, if_neg]
  intro hsuffix
  exact h ((List.isSuffixOf_iff_suffix.mp hsuffix).subset hc)

@[simp] theorem lines_nil : lines [] = [] := rfl

theorem afterMark?_iff : afterMark? mark cs = some after ↔ cs = mark ++ after := by
  constructor
  · intro h
    unfold afterMark? at h
    split at h
    · rename_i hprefix
      obtain ⟨behind, rfl⟩ := List.isPrefixOf_iff_prefix.mp hprefix
      rw [List.drop_left, Option.some.injEq] at h
      rw [h]
    · cases h
  · rintro rfl
    exact afterMark?_append

theorem beforeMark?_iff : beforeMark? mark cs = some before ↔ cs = before ++ mark := by
  constructor
  · intro h
    unfold beforeMark? at h
    split at h
    · rename_i hsuffix
      obtain ⟨front, rfl⟩ := List.isSuffixOf_iff_suffix.mp hsuffix
      rw [List.length_append, Nat.add_sub_cancel, List.take_left, Option.some.injEq] at h
      rw [h]
    · cases h
  · rintro rfl
    exact beforeMark?_append

theorem withoutReturn_cases (line : List Char) :
    withoutReturn line = line ∨ line = withoutReturn line ++ ['\r'] := by
  unfold withoutReturn
  cases h : beforeMark? ['\r'] line with
  | none => exact .inl rfl
  | some before => exact .inr (beforeMark?_iff.mp h)

theorem pieces_newline {line : List Char} (hline : '\n' ∉ line) :
    pieces (· == '\n') (line ++ '\n' :: cs) = line :: pieces (· == '\n') cs :=
  pieces_append (fun _ hc => beq_eq_false_iff_ne.mpr fun h => hline (h ▸ hc)) (by decide)

theorem lines_newline {line : List Char} (hline : '\n' ∉ line) :
    lines (line ++ '\n' :: cs) = withoutReturn line :: lines cs := by
  unfold lines
  dsimp only
  rw [pieces_newline hline, List.dropLast_cons_of_ne_nil pieces_ne_nil, List.map_cons,
    List.cons_append, List.getLast?_cons, List.getLast?_eq_some_getLast pieces_ne_nil]
  rfl

theorem lines_cons {line : List Char} (hnewline : '\n' ∉ line) (hreturn : '\r' ∉ line) :
    lines (line ++ '\n' :: cs) = line :: lines cs := by
  have hkeep : withoutReturn line = line := by
    rw [withoutReturn, beforeMark?_eq_none List.mem_cons_self hreturn, Option.getD_none]
  rw [lines_newline hnewline, hkeep]

variable {ds line rest : List Char} {n : Nat} {f : List Char → List Char}

/-- What holds of no lines, of a last line, and with a line in front of others, holds of every
text. -/
theorem lines_induction {P : List Char → Prop} (nil : P [])
    (last : ∀ line, line ≠ [] → '\n' ∉ line → P line)
    (newline : ∀ line rest, '\n' ∉ line → P rest → P (line ++ '\n' :: rest)) (cs : List Char) :
    P cs := by
  induction hlength : cs.length using Nat.strong_induction_on generalizing cs with
  | _ length ih =>
    by_cases hmem : '\n' ∈ cs
    · obtain ⟨line, rest, rfl, hline⟩ := List.eq_append_cons_of_mem hmem
      refine newline line rest hline (ih rest.length ?_ rest rfl)
      rw [← hlength, List.length_append, List.length_cons]
      omega
    · by_cases hne : cs = []
      · exact hne ▸ nil
      · exact last cs hne hmem

theorem pieces_of_line (hline : '\n' ∉ line) : pieces (· == '\n') line = [line] :=
  pieces_of_all fun _ hc => beq_eq_false_iff_ne.mpr fun h => hline (h ▸ hc)

theorem lines_of_line (hline : '\n' ∉ line) (hne : line ≠ []) : lines line = [line] := by
  unfold lines
  dsimp only
  rw [pieces_of_line hline, List.getLast?_singleton, Option.getD_some, if_neg (by simpa using hne)]
  rfl

section Trim

theorem trimEnd_append (h : ∀ c ∈ ds, isBlank c = true) : trimEnd (cs ++ ds) = trimEnd cs := by
  rw [trimEnd, List.reverse_append,
    List.dropWhile_append_of_pos fun c hc => h c (List.mem_reverse.mp hc), trimEnd]

theorem trim_append (h : ∀ c ∈ ds, isBlank c = true) : trim (cs ++ ds) = trim cs := by
  have hds : ds.dropWhile isBlank = [] := List.dropWhile_eq_nil_iff.mpr h
  rw [trim, trim, trimStart, trimStart, List.dropWhile_append]
  split
  · rename_i hcs
    rw [hds, List.isEmpty_iff.mp hcs]
  · exact trimEnd_append h

theorem trim_append_left (h : ∀ c ∈ ds, isBlank c = true) : trim (ds ++ cs) = trim cs := by
  rw [trim, trimStart, List.dropWhile_append_of_pos h, trim, trimStart]

/-- The carriage return of a line end is a blank. -/
theorem trim_withoutReturn (line : List Char) : trim (withoutReturn line) = trim line := by
  rcases withoutReturn_cases line with h | h
  · rw [h]
  · exact (trim_append (List.forall_mem_singleton.mpr rfl)).symm.trans (congrArg trim h.symm)

theorem exists_trim (cs : List Char) : ∃ front back,
    cs = front ++ trim cs ++ back ∧ (∀ c ∈ front, isBlank c = true) ∧
      ∀ c ∈ back, isBlank c = true := by
  refine ⟨cs.takeWhile isBlank, ((trimStart cs).reverse.takeWhile isBlank).reverse, ?_,
    fun c hc => List.mem_takeWhile_imp hc,
    fun c hc => List.mem_takeWhile_imp (List.mem_reverse.mp hc)⟩
  have hback : trim cs ++ ((trimStart cs).reverse.takeWhile isBlank).reverse = trimStart cs := by
    rw [trim, trimEnd, ← List.reverse_append, List.takeWhile_append_dropWhile, List.reverse_reverse]
  rw [List.append_assoc, hback, trimStart, List.takeWhile_append_dropWhile]

theorem trimEnd_prefix (cs : List Char) : trimEnd cs <+: cs := by
  rw [trimEnd, ← List.reverse_suffix, List.reverse_reverse]
  exact List.dropWhile_suffix _

theorem isBlank_of_head?_trim (h : (trim cs).head? = some c) : isBlank c = false := by
  have hfirst : (trimStart cs).head? = some c := by
    obtain ⟨back, hback⟩ := trimEnd_prefix (trimStart cs)
    rw [← hback, List.head?_append, show (trimEnd (trimStart cs)).head? = some c from h,
      Option.some_or]
  have hnot := List.head?_dropWhile_not isBlank cs
  rw [show (cs.dropWhile isBlank).head? = some c from hfirst] at hnot
  simpa using hnot

/-- What trimming leaves of a text that something stands behind starts with what it leaves of the
text. -/
theorem exists_trim_append (hne : trim cs ≠ []) (ds : List Char) :
    ∃ more, trim (cs ++ ds) = trim cs ++ more := by
  obtain ⟨front, back, hcs, hfront, -⟩ := exists_trim cs
  obtain ⟨c, rest, hfirst⟩ := List.exists_cons_of_ne_nil hne
  have hstart : trimStart (trim cs ++ (back ++ ds)) = trim cs ++ (back ++ ds) := by
    have hc : isBlank c = false := isBlank_of_head?_trim (by rw [hfirst, List.head?_cons])
    rw [hfirst, List.cons_append, trimStart, List.dropWhile_cons_of_neg (by simp [hc])]
  have hkeep : (trim cs).reverse.dropWhile isBlank = (trim cs).reverse := by
    rw [trim, trimEnd, List.reverse_reverse]
    exact List.dropWhile_idempotent _ _
  have hsplit : trim (front ++ (trim cs ++ (back ++ ds))) = trim (trim cs ++ (back ++ ds)) :=
    trim_append_left hfront
  rw [← List.append_assoc, ← List.append_assoc, ← hcs] at hsplit
  refine ⟨trimEnd (back ++ ds), ?_⟩
  rw [hsplit, trim, hstart, trimEnd, List.reverse_append, List.dropWhile_append, hkeep]
  split
  · rename_i hempty
    rw [trimEnd, List.isEmpty_iff.mp hempty, List.reverse_reverse, List.reverse_nil,
      List.append_nil]
  · rw [List.reverse_append, List.reverse_reverse, trimEnd]

end Trim

section OnLine

/-- The text with line `n` changed. Lines count from 1, and what ends a line is not part of it but
for a carriage return. -/
def onLine (n : Nat) (f : List Char → List Char) (cs : List Char) : List Char :=
  ['\n'].intercalate ((pieces (· == '\n') cs).modify (n - 1) f)

theorem intercalate_pieces (cs : List Char) : ['\n'].intercalate (pieces (· == '\n') cs) = cs := by
  induction cs using lines_induction with
  | nil => rfl
  | last line hne hline => rw [pieces_of_line hline, List.intercalate_singleton]
  | newline line rest hline ih =>
    have hne : pieces (· == '\n') rest ≠ [] := pieces_ne_nil
    obtain ⟨next, more, hmore⟩ := List.exists_cons_of_ne_nil hne
    rw [pieces_newline hline, hmore, List.intercalate_cons_cons, ← hmore, ih, List.append_assoc,
      List.singleton_append]

variable (hline : '\n' ∉ line)

include hline

theorem onLine_of_line : onLine 1 f line = f line := by
  rw [onLine, pieces_of_line hline]
  exact List.intercalate_singleton

theorem onLine_first : onLine 1 f (line ++ '\n' :: rest) = f line ++ '\n' :: rest := by
  have hne : pieces (· == '\n') rest ≠ [] := pieces_ne_nil
  obtain ⟨next, more, hmore⟩ := List.exists_cons_of_ne_nil hne
  rw [onLine, pieces_newline hline, hmore]
  change ['\n'].intercalate (f line :: next :: more) = _
  rw [List.intercalate_cons_cons, ← hmore, intercalate_pieces, List.append_assoc,
    List.singleton_append]

theorem onLine_later (hn : 0 < n) :
    onLine (n + 1) f (line ++ '\n' :: rest) = line ++ '\n' :: onLine n f rest := by
  obtain ⟨k, rfl⟩ : ∃ k, n = k + 1 := ⟨n - 1, by omega⟩
  have hne : (pieces (· == '\n') rest).modify k f ≠ [] := by
    rw [ne_eq, List.modify_eq_nil_iff]
    exact pieces_ne_nil
  obtain ⟨next, more, hmore⟩ := List.exists_cons_of_ne_nil hne
  rw [onLine, pieces_newline hline, onLine]
  change ['\n'].intercalate (line :: (pieces (· == '\n') rest).modify k f) =
    line ++ '\n' :: ['\n'].intercalate ((pieces (· == '\n') rest).modify k f)
  rw [hmore, List.intercalate_cons_cons, List.append_assoc, List.singleton_append]

end OnLine

end ColdFire.Text
