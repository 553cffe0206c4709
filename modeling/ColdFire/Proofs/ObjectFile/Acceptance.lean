import ColdFire.ObjectFile.IntelHex
import ColdFire.ObjectFile.SRecord
import ColdFire.Proofs.ObjectFile.Record
import ColdFire.Proofs.Text.Cut

namespace ColdFire

namespace RecordLine

variable {cs line rest : List Char} {c : Char}

/-- The lines of a text that hold more than blanks, without the blanks at their ends. -/
def bodies (cs : List Char) : List (List Char) :=
  ((Text.lines cs).map Text.trim).filter fun body => !body.isEmpty

theorem map_body_ofLines (lines : List (List Char)) (k : Nat) : (ofLines lines k).map (·.body) =
    (lines.map Text.trim).filter fun body => !body.isEmpty := by
  induction lines generalizing k with
  | nil => rfl
  | cons line lines ih =>
    rw [ofLines, List.zipIdx_cons, List.filterMap_cons, List.map_cons, List.filter_cons]
    dsimp only
    cases (Text.trim line).isEmpty with
    | true => exact ih (k + 1)
    | false => exact congrArg (Text.trim line :: ·) (ih (k + 1))

theorem map_body_ofText : (ofText cs).map (·.body) = bodies cs := map_body_ofLines _ 1

theorem bodies_newline (hline : '\n' ∉ line) : bodies (line ++ '\n' :: rest) =
    ([Text.trim line].filter fun body => !body.isEmpty) ++ bodies rest := by
  rw [bodies, Text.lines_newline hline, List.map_cons, Text.trim_withoutReturn,
    ← List.singleton_append, List.filter_append]
  rfl

theorem mem_bodies (hblank : Text.isBlank c = false) : (∃ body ∈ bodies cs, c ∈ body) ↔ c ∈ cs := by
  have hline (line : List Char) :
      (∃ body ∈ [Text.trim line].filter fun body => !body.isEmpty, c ∈ body) ↔ c ∈ line := by
    constructor
    · rintro ⟨body, hbody, hc⟩
      rw [List.mem_singleton.1 (List.mem_of_mem_filter hbody)] at hc
      obtain ⟨front, back, hline, -, -⟩ := Text.exists_trim line
      rw [hline]
      exact List.mem_append_left _ (List.mem_append_right _ hc)
    · intro hc
      have hmem := Text.mem_trim hc hblank
      refine ⟨Text.trim line, List.mem_filter.2 ⟨List.mem_singleton_self _, ?_⟩, hmem⟩
      simpa using List.ne_nil_of_mem hmem
  induction cs using Text.lines_induction with
  | nil => simp [bodies]
  | last line hne hnewline =>
    rw [bodies, Text.lines_of_line hnewline hne]
    exact hline line
  | newline line rest hnewline ih =>
    have hc : c ≠ '\n' := by
      rintro rfl
      cases hblank
    simp only [bodies_newline hnewline, List.mem_append, List.mem_cons, or_and_right, exists_or,
      or_iff_right hc]
    exact or_congr (hline line) ih

end RecordLine

namespace IntelHex

open Record (hexDigits Spells)

variable {leading fewer body : List Char} {bodies : List (List Char)} {bs : List UInt8}
  {record : Content} {line : RecordLine} {ls : List RecordLine} {p q : Progress}

/-- The bytes of a record: the count of its data, the address, the type, the data, and what makes
the sum of all of them zero. -/
inductive Content.Packed : List UInt8 → Content → Prop where
  | mk {count high low type check : UInt8} {data : List UInt8} (hcount : count.toNat = data.length)
      (hsum : Record.sum (count :: high :: low :: type :: (data ++ [check])) = 0) :
      Packed (count :: high :: low :: type :: (data ++ [check]))
        ⟨Record.number [high, low], type, data⟩

def IsRecord (leading body : List Char) (record : Content) : Prop :=
  ∃ digits bs, body = ':' :: digits ∧ Spells leading digits bs ∧ Content.Packed bs record

/-- The types of records and, but for data and the end of a file, how many data bytes they have. -/
def Content.IsKnown (record : Content) : Prop :=
  record.type = 0 ∨ record.type = 1 ∨
    (record.type = 2 ∨ record.type = 4) ∧ record.data.length = 2 ∨
    (record.type = 3 ∨ record.type = 5) ∧ record.data.length = 4

/-- The lines of a file: the last of them is an end record, and no other. -/
inductive IsFile (leading : List Char) : List (List Char) → Prop where
  | last {body : List Char} {record : Content} (hrecord : IsRecord leading body record)
      (hend : record.type = 1) : IsFile leading [body]
  | cons {body : List Char} {bodies : List (List Char)} {record : Content}
      (hrecord : IsRecord leading body record) (hknown : record.IsKnown) (hmore : record.type ≠ 1)
      (hrest : IsFile leading bodies) : IsFile leading (body :: bodies)

theorem IsRecord.of_leading (h : IsRecord leading body record)
    (hfewer : ∀ c ∈ body, c ∈ leading → c ∈ fewer) : IsRecord fewer body record := by
  obtain ⟨digits, bs, rfl, hdigits, hpacked⟩ := h
  exact ⟨digits, bs, rfl, hdigits.of_leading fun c hc => hfewer c (List.mem_cons_of_mem _ hc),
    hpacked⟩

theorem IsRecord.subset (h : IsRecord leading body record) :
    body ⊆ ':' :: (leading ++ hexDigits) := by
  obtain ⟨digits, bs, rfl, hdigits, -⟩ := h
  exact List.cons_subset_cons _ hdigits.subset

theorem isFile_cons : IsFile leading (body :: bodies) ↔ ∃ record, IsRecord leading body record ∧
    (record.type = 1 ∧ bodies = [] ∨ record.type ≠ 1 ∧ record.IsKnown ∧ IsFile leading bodies) := by
  constructor
  · intro h
    cases h with
    | last hrecord hend => exact ⟨_, hrecord, .inl ⟨hend, rfl⟩⟩
    | cons hrecord hknown hmore hrest => exact ⟨_, hrecord, .inr ⟨hmore, hknown, hrest⟩⟩
  · rintro ⟨record, hrecord, ⟨hend, rfl⟩ | ⟨hmore, hknown, hrest⟩⟩
    · exact .last hrecord hend
    · exact .cons hrecord hknown hmore hrest

theorem IsFile.of_leading (h : IsFile leading bodies)
    (hfewer : ∀ body ∈ bodies, ∀ c ∈ body, c ∈ leading → c ∈ fewer) : IsFile fewer bodies := by
  induction h with
  | last hrecord hend => exact .last (hrecord.of_leading (hfewer _ List.mem_cons_self)) hend
  | cons hrecord hknown hmore hrest ih =>
    obtain ⟨hbody, hbodies⟩ := List.forall_mem_cons.1 hfewer
    exact .cons (hrecord.of_leading hbody) hknown hmore (ih hbodies)

theorem IsFile.subset (h : IsFile leading bodies) :
    ∀ body ∈ bodies, body ⊆ ':' :: (leading ++ hexDigits) := by
  induction h with
  | last hrecord hend => exact List.forall_mem_singleton.2 hrecord.subset
  | cons hrecord hknown hmore hrest ih => exact List.forall_mem_cons.2 ⟨hrecord.subset, ih⟩

theorem Content.ofBytes_eq_ok :
    Content.ofBytes line bs = .ok record ↔ Content.Packed bs record := by
  constructor
  · intro h
    unfold Content.ofBytes at h
    split at h
    · rename_i count high low type rest
      -- the checksum is the last byte, if there is one
      obtain rfl | ⟨data, check, rfl⟩ := List.eq_nil_or_concat' rest
      · cases h
      rw [if_neg (by simp)] at h
      split at h
      · cases h
      rename_i hcount
      rw [List.length_append, List.length_singleton, ne_eq, not_not] at hcount
      dsimp only at h
      split at h
      · rename_i hsum
        rw [List.dropLast_concat] at h
        cases h
        exact .mk (by omega) hsum
      · cases h
    · cases h
  · rintro ⟨hcount, hsum⟩
    rename_i count high low type check data
    have hlength : ¬ (data ++ [check]).length ≠ count.toNat + 1 := by
      rw [List.length_append, List.length_singleton, hcount]
      exact fun h => h rfl
    rw [Content.ofBytes, if_neg (by simp), if_neg hlength]
    dsimp only
    rw [if_pos hsum, List.dropLast_concat]

theorem Content.ofLine_eq_ok :
    Content.ofLine line = .ok record ↔ IsRecord ('+' :: hexDigits) line.body record := by
  constructor
  · intro h
    unfold Content.ofLine at h
    split at h
    · cases h
    · rename_i digits hmark
      split at h
      · cases h
      · rename_i bs hbytes
        exact ⟨digits, bs, Text.afterMark?_iff.1 hmark, Record.bytes_eq_ok.1 hbytes,
          Content.ofBytes_eq_ok.1 h⟩
  · rintro ⟨digits, bs, hbody, hdigits, hpacked⟩
    rw [Content.ofLine, Text.afterMark?_iff.2 hbody]
    dsimp only
    rw [Record.bytes_eq_ok.2 hdigits]
    exact Content.ofBytes_eq_ok.2 hpacked

theorem apply_eq_ok (h : apply line record p = .ok q) :
    record.IsKnown ∧ (q.ended = true ↔ p.ended = true ∨ record.type = 1) := by
  unfold apply at h
  split at h
  all_goals cases h
  all_goals simp [Content.IsKnown, *]

theorem exists_apply (line : RecordLine) (p : Progress) (h : record.IsKnown) :
    ∃ q, apply line record p = .ok q := by
  obtain ⟨offset, type, data⟩ := record
  rcases h with rfl | rfl | ⟨rfl | rfl, hdata⟩ | ⟨rfl | rfl, hdata⟩
  · exact ⟨_, rfl⟩
  · exact ⟨_, rfl⟩
  · obtain ⟨a, b, rfl⟩ := List.length_eq_two.1 hdata
    exact ⟨_, rfl⟩
  · obtain ⟨a, b, rfl⟩ := List.length_eq_two.1 hdata
    exact ⟨_, rfl⟩
  · obtain ⟨a, b, c, d, rfl⟩ := List.length_eq_four.1 hdata
    exact ⟨_, rfl⟩
  · obtain ⟨a, b, c, d, rfl⟩ := List.length_eq_four.1 hdata
    exact ⟨_, rfl⟩

theorem readLine_eq_ok (h : readLine p line = .ok q) : p.ended = false ∧
    ∃ record, IsRecord ('+' :: hexDigits) line.body record ∧ record.IsKnown ∧
      (q.ended = true ↔ record.type = 1) := by
  unfold readLine at h
  split at h
  · cases h
  · rename_i hp
    obtain ⟨record, hrecord, happly⟩ := except_bind_eq_ok.1 h
    obtain ⟨hknown, hended⟩ := apply_eq_ok happly
    rw [or_iff_right hp] at hended
    exact ⟨Bool.eq_false_iff.2 hp, record, Content.ofLine_eq_ok.1 hrecord, hknown, hended⟩

theorem exists_readLine (hp : p.ended = false)
    (hrecord : IsRecord ('+' :: hexDigits) line.body record) (hknown : record.IsKnown) :
    ∃ q, readLine p line = .ok q ∧ (q.ended = true ↔ record.type = 1) := by
  obtain ⟨q, hq⟩ := exists_apply line p hknown
  have hread : readLine p line = .ok q := by
    rw [readLine, hp, if_neg Bool.false_ne_true, Content.ofLine_eq_ok.2 hrecord]
    exact hq
  have hended := (apply_eq_ok hq).2
  rw [hp, or_iff_right Bool.false_ne_true] at hended
  exact ⟨q, hread, hended⟩

theorem foldlM_of_ended (hp : p.ended = true) : ls.foldlM readLine p = .ok q ↔ ls = [] ∧ p = q := by
  constructor
  · intro h
    cases ls with
    | nil => exact ⟨rfl, Except.ok.inj h⟩
    | cons line ls =>
      rw [List.foldlM_cons, except_bind_eq_ok] at h
      obtain ⟨p', hread, -⟩ := h
      rw [(readLine_eq_ok hread).1] at hp
      cases hp
  · rintro ⟨rfl, rfl⟩
    rfl

/-- The lines of a file are those that are read up to an end record. -/
theorem foldlM_readLine_iff (hp : p.ended = false) :
    (∃ q, ls.foldlM readLine p = .ok q ∧ q.ended = true) ↔
      IsFile ('+' :: hexDigits) (ls.map (·.body)) := by
  -- line by line; once the end record is read no line may follow
  induction ls generalizing p with
  | nil =>
    constructor
    · rintro ⟨q, h, hq⟩
      cases h
      rw [hp] at hq
      cases hq
    · rintro ⟨⟩
  | cons line ls ih =>
    rw [List.map_cons, isFile_cons]
    constructor
    · rintro ⟨q, h, hq⟩
      rw [List.foldlM_cons, except_bind_eq_ok] at h
      obtain ⟨p', hread, hrest⟩ := h
      obtain ⟨-, record, hrecord, hknown, hended⟩ := readLine_eq_ok hread
      refine ⟨record, hrecord, ?_⟩
      by_cases hend : record.type = 1
      · obtain ⟨rfl, -⟩ := (foldlM_of_ended (hended.2 hend)).1 hrest
        exact .inl ⟨hend, rfl⟩
      · have hp' := Bool.eq_false_iff.2 (mt hended.1 hend)
        exact .inr ⟨hend, hknown, (ih hp').1 ⟨q, hrest, hq⟩⟩
    · rintro ⟨record, hrecord, ⟨hend, hnil⟩ | ⟨hmore, hknown, hrest⟩⟩
      · obtain ⟨p', hread, hended⟩ := exists_readLine hp hrecord (.inr (.inl hend))
        rw [List.map_eq_nil_iff.1 hnil, List.foldlM_cons, hread]
        exact ⟨p', rfl, hended.2 hend⟩
      · obtain ⟨p', hread, hended⟩ := exists_readLine hp hrecord hknown
        have hp' := Bool.eq_false_iff.2 (mt hended.1 hmore)
        rw [List.foldlM_cons, hread]
        exact (ih hp').2 hrest

theorem parse_accepts_iff {text : String} : (∃ img, parse text = .ok img) ↔
    IsFile ('+' :: hexDigits) (RecordLine.bodies text.toList) := by
  rw [← RecordLine.map_body_ofText, ← foldlM_readLine_iff (p := {}) rfl]
  constructor
  · rintro ⟨img, h⟩
    obtain ⟨q, hq, hend⟩ := except_bind_eq_ok.1 h
    refine ⟨q, hq, ?_⟩
    by_contra hnot
    rw [if_neg hnot] at hend
    exact except_throw_ne_ok hend
  · rintro ⟨q, hq, hend⟩
    exact ⟨q.image, except_bind_eq_ok.2 ⟨q, hq, if_pos hend⟩⟩

end IntelHex

namespace SRecord

open Record (hexDigits Spells)

variable {leading fewer body : List Char} {bodies : List (List Char)} {bs : List UInt8}
  {type : Char} {width : Nat} {n : UInt32} {record : Content} {line : RecordLine}
  {ls : List RecordLine} {p q : Progress}

/-- The bytes of a record of some type whose address has `width` bytes: the count of the bytes that
follow, the address, the data, and the complement of the sum of all of them. -/
inductive Content.Packed (type : Char) (width : Nat) : List UInt8 → Content → Prop where
  | mk {count check : UInt8} {field data : List UInt8} (hfield : field.length = width)
      (hcount : count.toNat = (field ++ data ++ [check]).length)
      (hsum : ~~~Record.sum (count :: (field ++ data)) = check) :
      Packed type width (count :: (field ++ data ++ [check])) ⟨type, Record.number field, data⟩

def IsRecord (leading body : List Char) (record : Content) : Prop :=
  ∃ type width digits bs, body = 'S' :: type :: digits ∧ addressWidth? type = some width ∧
    Spells leading digits bs ∧ Content.Packed type width bs record

/-- The lines of a file behind `n` data records, modulo 2^32. A record that counts these has their number
for its address. -/
inductive IsFile (leading : List Char) : UInt32 → List (List Char) → Prop where
  | nil {n : UInt32} : IsFile leading n []
  | data {n : UInt32} {body : List Char} {bodies : List (List Char)} {record : Content}
      (hrecord : IsRecord leading body record) (htype : record.type ∈ ['1', '2', '3'])
      (hrest : IsFile leading (n + 1) bodies) : IsFile leading n (body :: bodies)
  | count {n : UInt32} {body : List Char} {bodies : List (List Char)} {record : Content}
      (hrecord : IsRecord leading body record) (htype : record.type ∈ ['5', '6'])
      (hcount : record.address = n) (hrest : IsFile leading n bodies) :
      IsFile leading n (body :: bodies)
  | frame {n : UInt32} {body : List Char} {bodies : List (List Char)} {record : Content}
      (hrecord : IsRecord leading body record) (htype : record.type ∈ ['0', '7', '8', '9'])
      (hrest : IsFile leading n bodies) : IsFile leading n (body :: bodies)

theorem IsRecord.of_leading (h : IsRecord leading body record)
    (hfewer : ∀ c ∈ body, c ∈ leading → c ∈ fewer) : IsRecord fewer body record := by
  obtain ⟨type, width, digits, bs, rfl, htype, hdigits, hpacked⟩ := h
  exact ⟨type, width, digits, bs, rfl, htype, hdigits.of_leading fun c hc =>
    hfewer c (List.mem_cons_of_mem _ (List.mem_cons_of_mem _ hc)), hpacked⟩

theorem mem_types (h : addressWidth? type = some width) :
    type ∈ ['0', '1', '2', '3', '5', '6', '7', '8', '9'] := by
  unfold addressWidth? at h
  split at h
  case h_10 => cases h
  all_goals decide

theorem IsRecord.subset (h : IsRecord leading body record) :
    body ⊆ 'S' :: (leading ++ hexDigits) := by
  obtain ⟨type, width, digits, bs, rfl, htype, hdigits, -⟩ := h
  have hhex : type ∈ hexDigits := by
    have hsubset : ['0', '1', '2', '3', '5', '6', '7', '8', '9'] ⊆ hexDigits := by decide
    exact hsubset (mem_types htype)
  exact List.cons_subset_cons _ (List.cons_subset.2 ⟨List.mem_append_right _ hhex, hdigits.subset⟩)

theorem IsFile.of_leading (h : IsFile leading n bodies)
    (hfewer : ∀ body ∈ bodies, ∀ c ∈ body, c ∈ leading → c ∈ fewer) : IsFile fewer n bodies := by
  induction h with
  | nil => exact .nil
  | data hrecord htype hrest ih =>
    obtain ⟨hbody, hbodies⟩ := List.forall_mem_cons.1 hfewer
    exact .data (hrecord.of_leading hbody) htype (ih hbodies)
  | count hrecord htype hcount hrest ih =>
    obtain ⟨hbody, hbodies⟩ := List.forall_mem_cons.1 hfewer
    exact .count (hrecord.of_leading hbody) htype hcount (ih hbodies)
  | frame hrecord htype hrest ih =>
    obtain ⟨hbody, hbodies⟩ := List.forall_mem_cons.1 hfewer
    exact .frame (hrecord.of_leading hbody) htype (ih hbodies)

theorem IsFile.subset (h : IsFile leading n bodies) :
    ∀ body ∈ bodies, body ⊆ 'S' :: (leading ++ hexDigits) := by
  induction h with
  | nil => exact List.forall_mem_nil _
  | data hrecord _ _ ih => exact List.forall_mem_cons.2 ⟨hrecord.subset, ih⟩
  | count hrecord _ _ _ ih => exact List.forall_mem_cons.2 ⟨hrecord.subset, ih⟩
  | frame hrecord _ _ ih => exact List.forall_mem_cons.2 ⟨hrecord.subset, ih⟩

theorem Content.ofBytes_eq_ok :
    Content.ofBytes line type width bs = .ok record ↔ Content.Packed type width bs record := by
  constructor
  · intro h
    unfold Content.ofBytes at h
    split at h
    · cases h
    · rename_i count rest
      split at h
      · cases h
      rename_i hcount
      obtain ⟨hlength, hwidth⟩ : rest.length = count.toNat ∧ width + 1 ≤ count.toNat := by omega
      obtain rfl | ⟨front, check, rfl⟩ := List.eq_nil_or_concat' rest
      · rw [List.length_nil] at hlength
        omega
      rw [List.length_append, List.length_singleton] at hlength
      obtain ⟨field, data, rfl, hfield⟩ : ∃ field data, front = field ++ data ∧
          field.length = width :=
        ⟨_, _, (List.take_append_drop width front).symm, List.length_take_of_le (by omega)⟩
      dsimp only at h
      rw [List.dropLast_concat, List.getLastD_concat] at h
      split at h
      · rename_i hsum
        rw [List.append_assoc, List.take_left' hfield, List.drop_left' hfield,
          List.dropLast_concat] at h
        cases h
        exact .mk hfield (by rw [List.length_append, List.length_singleton, hlength]) hsum
      · cases h
  · rintro ⟨hfield, hcount, hsum⟩
    rename_i count check field data
    have hok : ¬ ((field ++ data ++ [check]).length ≠ count.toNat ∨ count.toNat < width + 1) := by
      rw [List.length_append, List.length_append, List.length_singleton, hfield] at *
      omega
    rw [Content.ofBytes, if_neg hok]
    dsimp only
    rw [List.dropLast_concat, List.getLastD_concat, if_pos hsum, List.append_assoc,
      List.take_left' hfield, List.drop_left' hfield, List.dropLast_concat]

theorem Content.ofLine_eq_ok :
    Content.ofLine line = .ok record ↔ IsRecord ('+' :: hexDigits) line.body record := by
  constructor
  · intro h
    unfold Content.ofLine at h
    split at h
    · cases h
    · cases h
    rename_i type digits hmark
    split at h
    · cases h
    rename_i width htype
    split at h
    · cases h
    rename_i bs hbytes
    exact ⟨type, width, digits, bs, Text.afterMark?_iff.1 hmark, htype, Record.bytes_eq_ok.1 hbytes,
      Content.ofBytes_eq_ok.1 h⟩
  · rintro ⟨type, width, digits, bs, hbody, htype, hdigits, hpacked⟩
    rw [Content.ofLine, Text.afterMark?_iff.2 hbody]
    dsimp only
    rw [htype]
    dsimp only
    rw [Record.bytes_eq_ok.2 hdigits]
    exact Content.ofBytes_eq_ok.2 hpacked

theorem apply_eq_ok (line : RecordLine) (hrecord : IsRecord leading body record) :
    (∃ q, apply line record p = .ok q ∧ q.dataRecords = n) ↔
      record.type ∈ ['1', '2', '3'] ∧ n = p.dataRecords + 1 ∨
      record.type ∈ ['5', '6'] ∧ record.address = p.dataRecords ∧ n = p.dataRecords ∨
      record.type ∈ ['0', '7', '8', '9'] ∧ n = p.dataRecords := by
  obtain ⟨type, width, digits, bs, -, htype, -, ⟨-, -, -⟩⟩ := hrecord
  rename_i count check field data
  have htypes := mem_types htype
  simp only [List.mem_cons, List.not_mem_nil, or_false] at htypes
  unfold apply
  by_cases hcount : Record.number field = p.dataRecords
  all_goals
    rcases htypes with rfl | rfl | rfl | rfl | rfl | rfl | rfl | rfl | rfl
    all_goals simp [hcount, eq_comm (a := n)]

theorem isFile_cons : IsFile leading n (body :: bodies) ↔ ∃ record, IsRecord leading body record ∧
    ∃ m, IsFile leading m bodies ∧ (record.type ∈ ['1', '2', '3'] ∧ m = n + 1 ∨
      record.type ∈ ['5', '6'] ∧ record.address = n ∧ m = n ∨
      record.type ∈ ['0', '7', '8', '9'] ∧ m = n) := by
  constructor
  · intro h
    cases h with
    | data hrecord htype hrest => exact ⟨_, hrecord, _, hrest, .inl ⟨htype, rfl⟩⟩
    | count hrecord htype hcount hrest =>
      exact ⟨_, hrecord, _, hrest, .inr (.inl ⟨htype, hcount, rfl⟩)⟩
    | frame hrecord htype hrest => exact ⟨_, hrecord, _, hrest, .inr (.inr ⟨htype, rfl⟩)⟩
  · rintro ⟨record, hrecord, m, hrest, ⟨htype, rfl⟩ | ⟨htype, hcount, rfl⟩ | ⟨htype, rfl⟩⟩
    · exact .data hrecord htype hrest
    · exact .count hrecord htype hcount hrest
    · exact .frame hrecord htype hrest

theorem foldlM_readLine_iff : (∃ q, ls.foldlM readLine p = .ok q) ↔
    IsFile ('+' :: hexDigits) p.dataRecords (ls.map (·.body)) := by
  induction ls generalizing p with
  | nil => exact ⟨fun _ => .nil, fun _ => ⟨p, rfl⟩⟩
  | cons line ls ih =>
    rw [List.map_cons, isFile_cons]
    constructor
    · rintro ⟨q, h⟩
      rw [List.foldlM_cons, except_bind_eq_ok] at h
      obtain ⟨p', hread, hrest⟩ := h
      obtain ⟨record, hline, happly⟩ := except_bind_eq_ok.1 hread
      have hrecord := Content.ofLine_eq_ok.1 hline
      exact ⟨record, hrecord, _, ih.1 ⟨q, hrest⟩, (apply_eq_ok line hrecord).1 ⟨p', happly, rfl⟩⟩
    · rintro ⟨record, hrecord, m, hrest, hm⟩
      obtain ⟨p', happly, rfl⟩ := (apply_eq_ok line hrecord).2 hm
      have hread : readLine p line = .ok p' :=
        except_bind_eq_ok.2 ⟨record, Content.ofLine_eq_ok.2 hrecord, happly⟩
      rw [List.foldlM_cons, hread]
      exact ih.2 hrest

theorem parse_accepts_iff {text : String} : (∃ img, parse text = .ok img) ↔
    IsFile ('+' :: hexDigits) 0 (RecordLine.bodies text.toList) := by
  rw [← RecordLine.map_body_ofText, ← foldlM_readLine_iff (p := {})]
  simp only [parse, except_map_eq_ok]
  constructor
  · rintro ⟨img, q, hq, -⟩
    exact ⟨q, hq⟩
  · rintro ⟨q, hq⟩
    exact ⟨q.image, q, hq, rfl⟩

end SRecord

inductive RecordFormat where
  | intelHex
  | sRecord

namespace RecordFormat

open Record (hexDigits)

def parse : RecordFormat → String → Except LoadError Image
  | intelHex => IntelHex.parse
  | sRecord => SRecord.parse

def IsFile : RecordFormat → List Char → List (List Char) → Prop
  | intelHex, leading, bodies => IntelHex.IsFile leading bodies
  | sRecord, leading, bodies => SRecord.IsFile leading 0 bodies

theorem parse_accepts_iff (f : RecordFormat) {text : String} : (∃ img, f.parse text = .ok img) ↔
    f.IsFile ('+' :: hexDigits) (RecordLine.bodies text.toList) := by
  cases f with
  | intelHex => exact IntelHex.parse_accepts_iff
  | sRecord => exact SRecord.parse_accepts_iff

variable {f : RecordFormat} {leading fewer : List Char} {bodies : List (List Char)}

theorem IsFile.of_leading (h : f.IsFile leading bodies)
    (hfewer : ∀ body ∈ bodies, ∀ c ∈ body, c ∈ leading → c ∈ fewer) : f.IsFile fewer bodies := by
  cases f with
  | intelHex => exact IntelHex.IsFile.of_leading h hfewer
  | sRecord => exact SRecord.IsFile.of_leading h hfewer

theorem IsFile.plus_notMem (h : f.IsFile hexDigits bodies) : ∀ body ∈ bodies, '+' ∉ body := by
  intro body hbody hplus
  cases f with
  | intelHex => exact absurd (IntelHex.IsFile.subset h body hbody hplus) (by decide)
  | sRecord => exact absurd (SRecord.IsFile.subset h body hbody hplus) (by decide)

/-- The texts that are loaded are files in which the first digit of a byte may be a plus sign. Those
without a plus sign are the files of hexadecimal digits. -/
theorem isFile_iff (f : RecordFormat) (text : String) :
    (f.IsFile ('+' :: hexDigits) (RecordLine.bodies text.toList) ↔ ∃ img, f.parse text = .ok img) ∧
    (f.IsFile hexDigits (RecordLine.bodies text.toList) ↔
      (∃ img, f.parse text = .ok img) ∧ '+' ∉ text.toList) := by
  refine ⟨f.parse_accepts_iff.symm, ?_⟩
  rw [f.parse_accepts_iff, ← RecordLine.mem_bodies (c := '+') rfl]
  constructor
  · intro h
    refine ⟨h.of_leading fun _ _ _ _ hc => List.mem_cons_of_mem _ hc, ?_⟩
    rintro ⟨body, hbody, hplus⟩
    exact h.plus_notMem body hbody hplus
  · rintro ⟨h, hplus⟩
    refine h.of_leading fun body hbody c hc hleading => ?_
    rcases List.mem_cons.1 hleading with rfl | hdigit
    · exact absurd ⟨body, hbody, hc⟩ hplus
    · exact hdigit

/-- An end record with a plus sign in its count is loaded. -/
theorem not_isFile_plus : (∃ img, parse intelHex ":+0000001FF\n" = .ok img) ∧
    ¬ IsFile intelHex hexDigits (RecordLine.bodies ":+0000001FF\n".toList) := by
  refine ⟨⟨Image.empty, rfl⟩, fun h => ?_⟩
  exact h.plus_notMem ":+0000001FF".toList (by decide) (by decide)

end RecordFormat

end ColdFire
