import ColdFire.Proofs.ObjectFile.Acceptance

namespace ColdFire

namespace Record

variable {bs : List UInt8} {b : UInt8} {i j : Nat} {c d e : Char}
  {front middle back line leading digits : List Char}

/-- The sum shows that one byte was replaced by another. -/
theorem sum_set_ne (hi : i < bs.length) (hb : b ≠ bs[i]) : sum (bs.set i b) ≠ sum bs := by
  have hsum (cs : List UInt8) : sum cs = cs.sum := List.sum_eq_foldl.symm
  obtain ⟨before, behind, hbs, -, hset⟩ : ∃ before behind, bs = before ++ bs[i] :: behind ∧
      before.length = i ∧ bs.set i b = before ++ b :: behind := List.exists_of_set hi
  have hold : bs.sum = before.sum + (bs[i] + behind.sum) := by
    rw [← List.sum_cons, ← List.sum_append, ← hbs]
  intro h
  rw [hsum, hsum, hset, hold, List.sum_append, List.sum_cons, UInt8.add_right_inj,
    UInt8.add_left_inj] at h
  exact hb h

/-- A line with two characters overwritten, the first of them `j` places behind the first that is no
blank. -/
def overwrite (j : Nat) (c d : Char) (line : List Char) : List Char :=
  let place := (line.takeWhile Text.isBlank).length + j
  (line.set place c).set (place + 1) d

theorem mem_overwrite (he : e ∈ overwrite j c d line) : e ∈ line ∨ e = c ∨ e = d := by
  rcases List.mem_or_eq_of_mem_set he with he | he
  · rcases List.mem_or_eq_of_mem_set he with he | he
    · exact .inl he
    · exact .inr (.inl he)
  · exact .inr (.inr he)

theorem overwrite_append (hfront : ∀ c ∈ front, Text.isBlank c = true)
    (hmiddle : ∀ c ∈ middle, Text.isBlank c = false) (hj : j + 1 < middle.length) :
    overwrite j c d (front ++ (middle ++ back)) =
      front ++ ((middle.set j c).set (j + 1) d ++ back) := by
  have htake : (front ++ (middle ++ back)).takeWhile Text.isBlank = front := by
    rw [List.takeWhile_append_of_pos hfront]
    obtain ⟨first, rest, rfl⟩ := List.exists_cons_of_length_pos (Nat.zero_lt_of_lt hj)
    rw [List.cons_append, List.takeWhile_cons_of_neg (by simp [hmiddle first List.mem_cons_self]),
      List.append_nil]
  unfold overwrite
  rw [htake]
  dsimp only
  rw [List.set_append_right _ _ (Nat.le_add_right _ _), Nat.add_sub_cancel_left,
    List.set_append_left _ _ (Nat.lt_of_succ_lt hj), Nat.add_assoc,
    List.set_append_right _ _ (Nat.le_add_right _ _), Nat.add_sub_cancel_left,
    List.set_append_left _ _ (by rwa [List.length_set])]

theorem trim_overwrite (hline : ∀ c ∈ Text.trim line, Text.isBlank c = false)
    (hj : j + 1 < (Text.trim line).length) (hc : Text.isBlank c = false)
    (hd : Text.isBlank d = false) :
    Text.trim (overwrite j c d line) = ((Text.trim line).set j c).set (j + 1) d := by
  obtain ⟨front, back, hsplit, hfront, hback⟩ := Text.exists_trim line
  generalize Text.trim line = middle at *
  subst hsplit
  rw [List.append_assoc, overwrite_append hfront hline hj, Text.trim_append_left hfront,
    Text.trim_append hback]
  refine Text.trim_of_all fun e he => ?_
  rcases List.mem_or_eq_of_mem_set he with he | rfl
  · rcases List.mem_or_eq_of_mem_set he with he | rfl
    · exact hline e he
    · exact hc
  · exact hd

end Record

namespace RecordLine

open Record (hexDigits Spells byteOf)

variable {σ : Type} {read : σ → RecordLine → Except LoadError σ} {p q : σ}
  {cs raw : List Char} {lines : List (List Char)} {line : RecordLine} {k : Nat}
  {change : List Char → List Char}

theorem le_number_of_mem (h : line ∈ ofLines lines k) : k ≤ line.number := by
  induction lines generalizing k with
  | nil => cases h
  | cons raw lines ih =>
    rw [ofLines_cons_append, List.mem_append, mem_ofLines_singleton] at h
    rcases h with ⟨rfl, -⟩ | h
    · exact Nat.le_refl k
    · exact Nat.le_of_succ_le (ih h)

theorem foldlM_refused {named : LoadError → Prop} (hne : Text.trim raw ≠ [])
    (hread : ∃ e, read p ⟨k, raw, Text.trim raw⟩ = .error e ∧ named e) :
    ∃ e, (ofLines (raw :: lines) k).foldlM read p = .error e ∧ named e := by
  obtain ⟨e, he, hnamed⟩ := hread
  refine ⟨e, ?_, hnamed⟩
  rw [ofLines_cons_append, ofLines_singleton hne, List.singleton_append, List.foldlM_cons, he]
  rfl

/-- A change of a line after which it is refused, whatever was read before. It takes no newline
in and leaves more than blanks. -/
structure Spoils (read : σ → RecordLine → Except LoadError σ) (named : LoadError → Prop)
    (line : RecordLine) (change : List Char → List Char) : Prop where
  newline {raw : List Char} (hraw : '\n' ∉ raw) : '\n' ∉ change raw
  inked {raw : List Char} (hbody : Text.trim raw = line.body) : Text.trim (change raw) ≠ []
  refuses {raw : List Char} (hbody : Text.trim raw = line.body) (p : σ) (text : List Char) :
    ∃ e, read p ⟨line.number, text, Text.trim (change raw)⟩ = .error e ∧ named e

/-- A text that is read is refused once a line of it is spoilt. -/
theorem foldlM_onLine {named : LoadError → Prop} (hchange : Spoils read named line change)
    (h : (ofLines (Text.lines cs) k).foldlM read p = .ok q)
    (hline : line ∈ ofLines (Text.lines cs) k) :
    ∃ e, (ofLines (Text.lines (Text.onLine (line.number + 1 - k) change cs)) k).foldlM read p =
      .error e ∧ named e := by
  -- line by line, with the reader where the lines before have taken it
  induction cs using Text.lines_induction generalizing p k with
  | nil => cases hline
  | last raw hne hraw =>
    rw [Text.lines_of_line hraw hne] at hline
    obtain ⟨rfl, -⟩ := mem_ofLines_singleton.1 hline
    have hinked := hchange.inked rfl
    have hne' : change raw ≠ [] := fun hnil => hinked (by rw [hnil]; rfl)
    dsimp only
    rw [Nat.add_sub_cancel_left, Text.onLine_of_line hraw,
      Text.lines_of_line (hchange.newline hraw) hne']
    exact foldlM_refused hinked (hchange.refuses rfl p _)
  | newline raw rest hraw ih =>
    rw [Text.lines_newline hraw, ofLines_cons_append] at hline h
    rw [List.foldlM_append, except_bind_eq_ok] at h
    obtain ⟨p', hfirst, hrest⟩ := h
    rcases List.mem_append.1 hline with hline | hline
    · obtain ⟨rfl, -⟩ := mem_ofLines_singleton.1 hline
      have hbody := (Text.trim_withoutReturn raw).symm
      have hinked := hchange.inked hbody
      have hread := hchange.refuses hbody p
      dsimp only at hread ⊢
      rw [Nat.add_sub_cancel_left, Text.onLine_first hraw,
        Text.lines_newline (hchange.newline hraw)]
      rw [← Text.trim_withoutReturn] at hinked hread
      exact foldlM_refused hinked (hread _)
    · have hle := le_number_of_mem hline
      obtain ⟨e, he, hnamed⟩ := ih hrest hline
      refine ⟨e, ?_, hnamed⟩
      rw [show line.number + 1 - k = line.number + 1 - (k + 1) + 1 by omega,
        Text.onLine_later hraw (by omega), Text.lines_newline hraw, ofLines_cons_append,
        List.foldlM_append, hfirst]
      exact he

theorem exists_read_of_mem {ls : List RecordLine} (h : ls.foldlM read p = .ok q)
    (hline : line ∈ ls) : ∃ p' q', read p' line = .ok q' := by
  induction ls generalizing p with
  | nil => cases hline
  | cons first ls ih =>
    rw [List.foldlM_cons, except_bind_eq_ok] at h
    obtain ⟨p', hfirst, hrest⟩ := h
    rcases List.mem_cons.1 hline with rfl | hline
    · exact ⟨p, p', hfirst⟩
    · exact ih hrest hline

/-- A parser that goes through the lines of a text from `start` on. The bytes of a line stand behind
`mark` characters and have the sum `total`, and what is refused is named by its line. -/
structure Reader (parse : String → Except LoadError Image)
    (read : σ → RecordLine → Except LoadError σ) (start : σ) (mark : Nat) (total : UInt8) :
    Prop where
  accepted {text : String} {img : Image} (h : parse text = .ok img) :
    ∃ q, (ofText text.toList).foldlM read start = .ok q
  refused {text : String} {e : LoadError}
    (h : (ofText text.toList).foldlM read start = .error e) : parse text = .error e
  spells {p q : σ} {line : RecordLine} (h : read p line = .ok q) :
    ∃ bs, Spells ('+' :: hexDigits) (line.body.drop mark) bs ∧ Record.sum bs = total
  inked {p q : σ} {line : RecordLine} (h : read p line = .ok q) :
    ∀ c ∈ line.body, Text.isBlank c = false
  named {p : σ} {line : RecordLine} {e : LoadError} (h : read p line = .error e) :
    e.line? = some line.number

namespace Reader

variable {parse : String → Except LoadError Image} {start : σ} {mark i : Nat} {total : UInt8}
  {bs : List UInt8} {c d : Char}

theorem exists_error (h : Reader parse read start mark total)
    (hbs : Spells ('+' :: hexDigits) (line.body.drop mark) bs) (hsum : Record.sum bs = total)
    (hi : i < bs.length) (hc : c ∈ hexDigits) (hd : d ∈ hexDigits) (hne : byteOf c d ≠ bs[i])
    (p : σ) (text : List Char) : ∃ e, read p ⟨line.number, text,
      (line.body.set (mark + 2 * i) c).set (mark + 2 * i + 1) d⟩ = .error e ∧
        e.line? = some line.number := by
  cases hread : read p ⟨line.number, text,
    (line.body.set (mark + 2 * i) c).set (mark + 2 * i + 1) d⟩ with
  | error e =>
    have hnamed := h.named hread
    exact ⟨e, rfl, hnamed⟩
  -- read all the same, the bytes would have the sum that they cannot have
  | ok q =>
    obtain ⟨bs', hbs', hsum'⟩ := h.spells hread
    have hset := hbs.set hi (List.mem_cons_of_mem _ hc) hd
    dsimp only at hbs'
    rw [List.drop_set, if_neg (by omega), List.drop_set, if_neg (by omega), Nat.add_assoc,
      Nat.add_sub_cancel_left, Nat.add_sub_cancel_left] at hbs'
    have hbytes := Record.bytes_eq_ok.2 hbs'
    rw [Record.bytes_eq_ok.2 hset, Except.ok.injEq] at hbytes
    rw [← hbytes, ← hsum] at hsum'
    exact absurd hsum' (Record.sum_set_ne hi hne)

theorem spoils (h : Reader parse read start mark total) (hread : read p line = .ok q)
    (hbs : Spells ('+' :: hexDigits) (line.body.drop mark) bs) (hsum : Record.sum bs = total)
    (hi : i < bs.length) (hc : c ∈ hexDigits) (hd : d ∈ hexDigits) (hne : byteOf c d ≠ bs[i]) :
    Spoils read (fun e => e.line? = some line.number) line
      (Record.overwrite (mark + 2 * i) c d) := by
  have hink : ∀ c ∈ hexDigits, Text.isBlank c = false := List.all_iff_forall_prop.mp (by decide)
  have hlength := hbs.length
  rw [List.length_drop] at hlength
  have htrim {raw : List Char} (hbody : Text.trim raw = line.body) :
      Text.trim (Record.overwrite (mark + 2 * i) c d raw) =
        (line.body.set (mark + 2 * i) c).set (mark + 2 * i + 1) d := by
    rw [← hbody]
    exact Record.trim_overwrite (hbody ▸ h.inked hread) (by rw [hbody]; omega) (hink c hc)
      (hink d hd)
  constructor
  case newline =>
    intro raw hraw hmem
    rcases Record.mem_overwrite hmem with hmem | rfl | rfl
    · exact hraw hmem
    · exact absurd hc (by decide)
    · exact absurd hd (by decide)
  case inked =>
    intro raw hbody
    rw [htrim hbody]
    exact List.ne_nil_of_length_pos (by rw [List.length_set, List.length_set]; omega)
  case refuses =>
    intro raw hbody
    rw [htrim hbody]
    exact h.exists_error hbs hsum hi hc hd hne

/-- A text is refused with the number of the line in which one byte was replaced by another. -/
theorem exists_refusal (h : Reader parse read start mark total) {text : String} {img : Image}
    (hparse : parse text = .ok img) (hline : line ∈ ofText text.toList) :
    ∃ bs, Record.bytes (line.body.drop mark) = .ok bs ∧
      ∀ i (_ : i < bs.length), ∀ c ∈ hexDigits, ∀ d ∈ hexDigits, byteOf c d ≠ bs[i] →
        ∃ e, parse (String.ofList
          (Text.onLine line.number (Record.overwrite (mark + 2 * i) c d) text.toList)) = .error e ∧
          e.line? = some line.number := by
  -- the line was read once, so it spells bytes with the right sum
  obtain ⟨q, hread⟩ := h.accepted hparse
  obtain ⟨p', q', hbody⟩ := exists_read_of_mem hread hline
  obtain ⟨bs, hbs, hsum⟩ := h.spells hbody
  refine ⟨bs, Record.bytes_eq_ok.2 hbs, fun i hi c hc d hd hne => ?_⟩
  obtain ⟨e, he, hnamed⟩ :=
    foldlM_onLine (k := 1) (h.spoils hbody hbs hsum hi hc hd hne) hread hline
  exact ⟨e, h.refused (by rwa [String.toList_ofList]), hnamed⟩

end Reader

end RecordLine

namespace IntelHex

variable {line : RecordLine} {bs : List UInt8} {record : Content} {p q : Progress} {e : LoadError}

theorem Content.ofBytes_named (h : Content.ofBytes line bs = .error e) :
    e.line? = some line.number := by
  unfold Content.ofBytes at h
  split at h
  · split at h
    · cases h
      rfl
    split at h
    · cases h
      rfl
    dsimp only at h
    split at h
    · cases h
    · cases h
      rfl
  · cases h
    rfl

theorem Content.ofLine_named (h : Content.ofLine line = .error e) : e.line? = some line.number := by
  unfold Content.ofLine at h
  split at h
  · cases h
    rfl
  split at h
  · cases h
    rfl
  · exact ofBytes_named h

theorem apply_named (h : apply line record p = .error e) : e.line? = some line.number := by
  unfold apply at h
  split at h
  all_goals
    cases h
    try rfl

theorem readLine_named (h : readLine p line = .error e) : e.line? = some line.number := by
  unfold readLine at h
  split at h
  · cases h
    rfl
  cases hline : Content.ofLine line with
  | error e' =>
    rw [hline] at h
    cases h
    exact Content.ofLine_named hline
  | ok record =>
    rw [hline] at h
    exact apply_named h

theorem reader : RecordLine.Reader parse readLine {} 1 0 where
  accepted h := by
    obtain ⟨q, hq, -⟩ := except_bind_eq_ok.1 h
    exact ⟨q, hq⟩
  refused h := by
    rw [parse, h]
    rfl
  spells h := by
    obtain ⟨-, record, ⟨digits, bs, hbody, hdigits, ⟨-, hsum⟩⟩, -⟩ := readLine_eq_ok h
    rw [hbody]
    exact ⟨_, hdigits, hsum⟩
  inked h := by
    obtain ⟨-, record, hrecord, -⟩ := readLine_eq_ok h
    have hink : ∀ c ∈ ':' :: ('+' :: Record.hexDigits ++ Record.hexDigits),
        Text.isBlank c = false := List.all_iff_forall_prop.mp (by decide)
    exact fun c hc => hink c (hrecord.subset hc)
  named := readLine_named

end IntelHex

namespace SRecord

variable {line : RecordLine} {bs : List UInt8} {type : Char} {width : Nat} {record : Content}
  {p q : Progress} {e : LoadError}

theorem Content.ofBytes_named (h : Content.ofBytes line type width bs = .error e) :
    e.line? = some line.number := by
  unfold Content.ofBytes at h
  split at h
  · cases h
    rfl
  split at h
  · cases h
    rfl
  dsimp only at h
  split at h
  · cases h
  · cases h
    rfl

theorem Content.ofLine_named (h : Content.ofLine line = .error e) : e.line? = some line.number := by
  unfold Content.ofLine at h
  split at h
  · cases h
    rfl
  · cases h
    rfl
  split at h
  · cases h
    rfl
  split at h
  · cases h
    rfl
  · exact ofBytes_named h

theorem apply_named (h : apply line record p = .error e) : e.line? = some line.number := by
  unfold apply at h
  split at h
  case h_5 | h_6 =>
    split at h
    · cases h
    · cases h
      rfl
  all_goals cases h

theorem readLine_named (h : readLine p line = .error e) : e.line? = some line.number := by
  unfold readLine at h
  cases hline : Content.ofLine line with
  | error e' =>
    rw [hline] at h
    cases h
    exact Content.ofLine_named hline
  | ok record =>
    rw [hline] at h
    exact apply_named h

theorem Content.Packed.sum_eq (h : Content.Packed type width bs record) : Record.sum bs = 0xFF := by
  obtain ⟨-, -, rfl⟩ := h
  rename_i count field data
  have hall (s : UInt8) : s + ~~~s = 0xFF := UInt8.toBitVec_inj.1 (BitVec.add_not_self s.toBitVec)
  exact (Record.sum_append_singleton (count :: (field ++ data)) _).trans (hall _)

theorem reader : RecordLine.Reader parse readLine {} 2 0xFF where
  accepted h := by
    obtain ⟨q, hq, -⟩ := except_map_eq_ok.1 h
    exact ⟨q, hq⟩
  refused h := by
    rw [parse, h]
    rfl
  spells h := by
    obtain ⟨record, hline, -⟩ := except_bind_eq_ok.1 h
    obtain ⟨type, width, digits, bs, hbody, -, hdigits, hpacked⟩ := Content.ofLine_eq_ok.1 hline
    rw [hbody]
    exact ⟨bs, hdigits, hpacked.sum_eq⟩
  inked h := by
    obtain ⟨record, hline, -⟩ := except_bind_eq_ok.1 h
    have hink : ∀ c ∈ 'S' :: ('+' :: Record.hexDigits ++ Record.hexDigits),
        Text.isBlank c = false := List.all_iff_forall_prop.mp (by decide)
    exact fun c hc => hink c ((Content.ofLine_eq_ok.1 hline).subset hc)
  named := readLine_named

end SRecord

namespace RecordFormat

def mark : RecordFormat → Nat
  | intelHex => 1
  | sRecord => 2

/-- A text that is loaded is refused, with the number of the line, once a byte of a record is
overwritten with another. The type digit of an S-record stands in front of its bytes. -/
theorem refuses_overwritten (f : RecordFormat) {text : String} {img : Image} {line : RecordLine}
    (h : f.parse text = .ok img) (hline : line ∈ RecordLine.ofText text.toList) :
    ∃ bs, Record.bytes (line.body.drop f.mark) = .ok bs ∧
      ∀ i (_ : i < bs.length), ∀ c ∈ Record.hexDigits, ∀ d ∈ Record.hexDigits,
        Record.byteOf c d ≠ bs[i] →
        ∃ e, f.parse (String.ofList (Text.onLine line.number
          (Record.overwrite (f.mark + 2 * i) c d) text.toList)) = .error e ∧
          e.line? = some line.number := by
  cases f with
  | intelHex => exact IntelHex.reader.exists_refusal h hline
  | sRecord => exact SRecord.reader.exists_refusal h hline

theorem refuses_overwritten_start :
    (∃ img, parse sRecord "S1041000AA41\n S9031000EC\r\n" = .ok img) ∧
    ∃ e, parse sRecord "S1041000AA41\n S9031004EC\r\n" = .error e ∧ e.line? = some 2 := by
  have hline : ⟨2, " S9031000EC".toList, "S9031000EC".toList⟩ ∈
      RecordLine.ofText "S1041000AA41\n S9031000EC\r\n".toList := List.mem_of_getElem? (i := 1) rfl
  refine ⟨⟨_, rfl⟩, ?_⟩
  obtain ⟨bs, hbs, hrefused⟩ := refuses_overwritten sRecord rfl hline
  obtain rfl : bs = [3, 0x10, 0, 0xEC] := (Except.ok.inj hbs).symm
  exact hrefused 2 (by decide) '0' (by decide) '4' (by decide) (by decide)

end RecordFormat

end ColdFire
