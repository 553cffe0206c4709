import ColdFire.ObjectFile.SRecord
import ColdFire.Proofs.Memory.Canonical
import ColdFire.Proofs.ObjectFile.Record

namespace ColdFire.SRecord

variable {type : Char} {width : Nat} {n address : UInt32} {data : List UInt8} {p : Progress}
  {l : RecordLine} {img : Image}

theorem addressWidth?_eq_some (h : addressWidth? type = some width) :
    Text.isBlank type = false ∧ 2 ≤ width ∧ width ≤ 4 := by
  unfold addressWidth? at h
  split at h
  case h_10 => cases h
  all_goals
    cases h
    decide

theorem ofLine_of_bytes (htype : addressWidth? type = some width) {bs : List UInt8}
    (hbody : l.body = ['S', type] ++ Record.digits bs) :
    Content.ofLine l = Content.ofBytes l type width bs := by
  have hmark : Text.afterMark? ['S'] l.body = some (type :: Record.digits bs) := by
    rw [hbody]
    exact Text.afterMark?_append
  rw [Content.ofLine, hmark]
  dsimp only
  rw [htype]
  dsimp only
  rw [Record.bytes_digits]

theorem ofBytes_of_line (hhigh : width ≤ 4) (hlen : width + data.length < 255) :
    let field := (Bus.bytes .long address).drop (4 - width)
    let bytes := UInt8.ofNat (width + data.length + 1) :: field ++ data
    Content.ofBytes l type width (bytes ++ [~~~Record.sum bytes]) =
      .ok ⟨type, Record.number field, data⟩ := by
  intro field bytes
  have hfield : field.length = width := by
    rw [List.length_drop, Bus.length_bytes]
    exact Nat.sub_sub_self hhigh
  have hcount : (UInt8.ofNat (width + data.length + 1)).toNat = width + data.length + 1 := by
    rw [UInt8.toNat_ofNat', Nat.mod_eq_of_lt (by omega)]
  have hrest : (field ++ data ++ [~~~Record.sum bytes]).length = width + data.length + 1 := by
    rw [List.length_append, List.length_append, hfield]
    rfl
  have hok : ¬ (width + data.length + 1 ≠ width + data.length + 1 ∨
      width + data.length + 1 < width + 1) := by omega
  change Content.ofBytes l type width
    (UInt8.ofNat (width + data.length + 1) :: (field ++ data ++ [~~~Record.sum bytes])) = _
  rw [Content.ofBytes, hcount, hrest, if_neg hok]
  dsimp only
  rw [List.dropLast_concat, List.getLastD_concat]
  refine (if_pos rfl).trans ?_
  rw [List.append_assoc, List.take_left' hfield, List.drop_left' hfield, List.dropLast_concat]

theorem readLine_of_line (htype : addressWidth? type = some width) (address : UInt32)
    (data : List UInt8) (hlen : width + data.length < 255) :
    let field := (Bus.bytes .long address).drop (4 - width)
    let bytes := UInt8.ofNat (width + data.length + 1) :: field ++ data
    l.body = ['S', type] ++ Record.digits (bytes ++ [~~~Record.sum bytes]) →
      readLine p l = apply l ⟨type, Record.number field, data⟩ p := by
  intro field bytes hbody
  rw [readLine, ofLine_of_bytes htype hbody, ofBytes_of_line (addressWidth?_eq_some htype).2.2 hlen]
  rfl

theorem isBlank_mark (htype : addressWidth? type = some width) :
    ∀ c ∈ ['S', type], Text.isBlank c = false :=
  List.forall_mem_cons.mpr
    ⟨rfl, List.forall_mem_singleton.mpr (addressWidth?_eq_some htype).1⟩

theorem reads_line {q : Progress} (htype : addressWidth? type = some width)
    (hlen : width + data.length < 255) (haddress : address.toNat < 256 ^ width)
    (happly : ∀ l, apply l ⟨type, address, data⟩ p = .ok q) :
    RecordLine.Reads readLine p (line type width address data) q := by
  obtain ⟨-, hlow, hhigh⟩ := addressWidth?_eq_some htype
  refine .text (isBlank_mark htype) (List.cons_ne_nil _ _) fun k => ?_
  rw [readLine_of_line htype _ _ hlen rfl, Record.number_drop_bytes width hlow hhigh haddress]
  exact happly _

section Shape

variable (top : Nat)

theorem shape_cases : shape top = ⟨'1', '9', 2⟩ ∧ top ≤ 0xFFFF ∨
    shape top = ⟨'2', '8', 3⟩ ∧ top ≤ 0xFFFFFF ∨ shape top = ⟨'3', '7', 4⟩ := by
  unfold shape
  split
  · exact .inl ⟨rfl, ‹_›⟩
  · split
    · exact .inr (.inl ⟨rfl, ‹_›⟩)
    · exact .inr (.inr rfl)

theorem addressWidth?_data : addressWidth? (shape top).data = some (shape top).width := by
  rcases shape_cases top with ⟨h, -⟩ | ⟨h, -⟩ | h
  all_goals
    rw [h]
    rfl

theorem addressWidth?_final : addressWidth? (shape top).final = some (shape top).width := by
  rcases shape_cases top with ⟨h, -⟩ | ⟨h, -⟩ | h
  all_goals
    rw [h]
    rfl

variable {top}

/-- The records for addresses up to `top` are wide enough for them. -/
theorem lt_of_le_top (haddress : address.toNat ≤ top) :
    address.toNat < 256 ^ (shape top).width := by
  have hlt := address.toNat_lt
  rcases shape_cases top with ⟨h, htop⟩ | ⟨h, htop⟩ | h
  · rw [h]
    exact Nat.lt_succ_of_le (haddress.trans htop)
  · rw [h]
    exact Nat.lt_succ_of_le (haddress.trans htop)
  · rw [h]
    exact hlt

theorem apply_data : apply l ⟨(shape top).data, address, data⟩ p =
    .ok ⟨p.image.writeBytes address data, p.dataRecords + 1⟩ := by
  rcases shape_cases top with ⟨h, -⟩ | ⟨h, -⟩ | h
  all_goals
    rw [h]
    rfl

theorem apply_final : apply l ⟨(shape top).final, address, data⟩ p =
    .ok { p with image := { p.image with start := some address } } := by
  rcases shape_cases top with ⟨h, -⟩ | ⟨h, -⟩ | h
  all_goals
    rw [h]
    rfl

end Shape

theorem reads_dataLines {top : Nat} {runs : List (UInt32 × List UInt8)}
    (hlen : ∀ run ∈ runs, run.2.length ≤ Record.width) (htop : ∀ run ∈ runs, run.1.toNat ≤ top) :
    RecordLine.Reads readLine p
      (runs.flatMap fun (addr, bytes) => line (shape top).data (shape top).width addr bytes)
      ⟨p.image.writeAll runs, p.dataRecords + UInt32.ofNat runs.length⟩ := by
  induction runs generalizing p with
  | nil =>
    rw [List.length_nil, show UInt32.ofNat 0 = 0 from rfl, UInt32.add_zero]
    exact .nil
  | cons run rest ih =>
    obtain ⟨addr, bytes⟩ := run
    obtain ⟨hbytes, hrest⟩ := List.forall_mem_cons.mp hlen
    obtain ⟨haddr, hlater⟩ := List.forall_mem_cons.mp htop
    obtain ⟨-, -, hwidth⟩ := addressWidth?_eq_some (addressWidth?_data top)
    have hfits : (shape top).width + bytes.length < 255 := by
      have : bytes.length ≤ 16 := hbytes
      omega
    have hdata := reads_line (p := p) (addressWidth?_data top) hfits (lt_of_le_top haddr)
      fun _ => apply_data
    rw [List.flatMap_cons, List.length_cons, add_ofNat_add]
    exact hdata.append (ih hrest hlater)

/-- What one record takes each, written in order, is the whole run. -/
theorem writeAll_shares (img : Image) (addr : UInt32) (bytes : List UInt8) :
    img.writeAll (shares addr bytes) = img.writeBytes addr bytes := by
  fun_induction shares addr bytes generalizing img with
  | case1 => rfl
  | case2 addr b rest ih => rw [Image.writeAll_cons, ih, Image.writeBytes_take_drop]

theorem length_of_mem_shares {addr : UInt32} {bytes : List UInt8} :
    ∀ run ∈ shares addr bytes, run.2.length ≤ Record.width := by
  fun_induction shares addr bytes with
  | case1 => exact List.forall_mem_nil _
  | case2 addr b rest ih => exact List.forall_mem_cons.mpr ⟨List.length_take_le _ _, ih⟩

theorem lt_of_mem_shares {addr : UInt32} {bytes : List UInt8} {limit : Nat}
    (hrun : addr.toNat + bytes.length ≤ limit) (hlimit : limit ≤ 2 ^ 32) :
    ∀ run ∈ shares addr bytes, run.1.toNat < limit := by
  fun_induction shares addr bytes with
  | case1 => exact List.forall_mem_nil _
  | case2 addr b rest ih =>
    rw [List.length_cons] at hrun
    have haddr : addr.toNat < limit := by omega
    refine List.forall_mem_cons.mpr ⟨haddr, ?_⟩
    -- if nothing is left the next record does not exist, and its address might have wrapped
    by_cases hmore : Record.width < rest.length + 1
    · have hnext : (addr + UInt32.ofNat Record.width).toNat = addr.toNat + Record.width := by
        rw [UInt32.toNat_add]
        change (addr.toNat + Record.width) % 2 ^ 32 = _
        exact Nat.mod_eq_of_lt (by omega)
      refine ih ?_
      rw [hnext, List.length_drop, List.length_cons]
      omega
    · rw [List.drop_eq_nil_of_le (by rw [List.length_cons]; omega), shares]
      exact List.forall_mem_nil _

def dataRecords (img : Image) : List (UInt32 × List UInt8) :=
  img.segments.flatMap fun s => shares s.base s.bytes.toList

theorem writeAll_dataRecords (img : Image) :
    Image.empty.writeAll (dataRecords img) = { img with start := none } :=
  (Image.writeAll_flatMap writeAll_shares _).trans (Image.write_segments img)

theorem length_of_mem_dataRecords (img : Image) :
    ∀ run ∈ dataRecords img, run.2.length ≤ Record.width := by
  intro run hrun
  obtain ⟨s, -, hs⟩ := List.mem_flatMap.mp hrun
  exact length_of_mem_shares run hs

theorem top_lt (img : Image) : top img < 2 ^ 32 := by
  have hstart := (img.start.getD 0).toNat_lt
  unfold top Image.bounds?
  cases img.bytes.minKey? with
  | none => simpa using hstart
  | some low =>
    cases img.bytes.maxKey? with
    | none => simpa using hstart
    | some high => exact Nat.max_lt.mpr ⟨high.toNat_lt, hstart⟩

theorem start_le_top (img : Image) : (img.start.getD 0).toNat ≤ top img := Nat.le_max_right _ _

theorem le_top_of_get? {b : UInt8} (h : img.get? address = some b) : address.toNat ≤ top img := by
  obtain ⟨low, high, hbounds, hle⟩ := Image.exists_bounds_of_get? h
  rw [top, hbounds]
  exact Nat.le_trans (UInt32.le_iff_toNat_le.mp hle) (Nat.le_max_left _ _)

theorem le_top_of_mem_dataRecords (img : Image) :
    ∀ run ∈ dataRecords img, run.1.toNat ≤ top img := by
  intro run hrun
  obtain ⟨s, hs, hshare⟩ := List.mem_flatMap.mp hrun
  have hlimit : s.limit ≤ top img + 1 :=
    Image.limit_le_of_mem_segments (fun _ _ h => Nat.lt_succ_of_le (le_top_of_get? h)) s hs
  rw [Segment.limit, ← Array.length_toList] at hlimit
  exact Nat.le_of_lt_succ (lt_of_mem_shares hlimit (top_lt img) run hshare)

/-- A run takes at most half as many records as it has bytes, rounded up. -/
theorem length_shares (addr : UInt32) (bytes : List UInt8) :
    2 * (shares addr bytes).length ≤ bytes.length + 1 := by
  -- a full record takes sixteen bytes, and the last one at least one
  fun_induction shares addr bytes with
  | case1 => exact Nat.zero_le _
  | case2 addr b rest ih =>
    have hwidth : Record.width = 16 := rfl
    rw [List.length_drop, List.length_cons] at ih
    rw [List.length_cons, List.length_cons]
    omega

theorem length_flatMap_shares (segments : List Segment) :
    2 * (segments.flatMap fun s => shares s.base s.bytes.toList).length ≤ Segment.room segments := by
  induction segments with
  | nil => exact Nat.le_refl _
  | cons s rest ih =>
    have hfirst : 2 * (shares s.base s.bytes.toList).length ≤ s.bytes.size + 1 :=
      length_shares s.base s.bytes.toList
    rw [List.flatMap_cons, List.length_append, Segment.room]
    omega

/-- The records for an image never outrun their counter. -/
theorem length_dataRecords_lt (img : Image) : (dataRecords img).length < 2 ^ 32 := by
  have hrecords := length_flatMap_shares img.segments
  -- runs with a gap between them, each counted one longer, still fit the addresses there are
  have hroom := (Image.runs_segments img).room_le 0 (fun _ _ => Nat.zero_le _) (by omega)
  rw [dataRecords]
  omega

/-- The record that counts the data records is accepted if three bytes hold the count. -/
theorem reads_countLine (hn : p.dataRecords = n) (hle : n.toNat ≤ 0xFFFFFF) :
    RecordLine.Reads readLine p (countLine n) p := by
  rw [countLine]
  split
  · rename_i hfew
    exact reads_line rfl (by decide) (Nat.lt_succ_of_le (UInt32.le_iff_toNat_le.mp hfew))
      fun _ => if_pos hn.symm
  · exact reads_line rfl (by decide) (Nat.lt_succ_of_le hle) fun _ => if_pos hn.symm

theorem reads_finalLine {top : Nat} (haddress : address.toNat ≤ top) :
    RecordLine.Reads readLine p (line (shape top).final (shape top).width address [])
      { p with image := { p.image with start := some address } } := by
  obtain ⟨-, -, hwidth⟩ := addressWidth?_eq_some (addressWidth?_final top)
  have hfits : (shape top).width + ([] : List UInt8).length < 255 := by
    rw [List.length_nil]
    omega
  exact reads_line (addressWidth?_final top) hfits (lt_of_le_top haddress) fun _ => apply_final

theorem length_toList_loop (bs : ByteArray) (i : Nat) (done : List UInt8) :
    (ByteArray.toList.loop bs i done).length = bs.size - i + done.length := by
  fun_induction ByteArray.toList.loop bs i done with
  | case1 i done h ih =>
    rw [ih, List.length_cons]
    omega
  | case2 i done h =>
    rw [List.length_reverse]
    omega

theorem length_toUTF8 (s : String) : s.toUTF8.toList.length = s.utf8ByteSize := by
  rw [ByteArray.toList, length_toList_loop]
  rfl

theorem reads_header {header : String} (h : header.utf8ByteSize ≤ 252) :
    RecordLine.Reads readLine p (line '0' 2 0 header.toUTF8.toList) p :=
  reads_line rfl (by rw [length_toUTF8]; omega) (by decide) fun _ => rfl

theorem toList_save (img : Image) (header : String) : (save img header).toList =
    line '0' 2 0 header.toUTF8.toList ++
    (dataRecords img).flatMap (fun (addr, bytes) =>
      line (shape (top img)).data (shape (top img)).width addr bytes) ++
    countLine (UInt32.ofNat (dataRecords img).length) ++
    line (shape (top img)).final (shape (top img)).width (img.start.getD 0) [] :=
  String.toList_ofList

theorem readLine_of_long (htype : addressWidth? type = some width) {bs : List UInt8}
    (hbs : 256 < bs.length) (hbody : l.body = ['S', type] ++ Record.digits bs) :
    ∃ e, readLine p l = .error e := by
  cases bs with
  | nil => cases hbs
  | cons count rest =>
    have hlt := count.toNat_lt
    rw [List.length_cons] at hbs
    rw [readLine, ofLine_of_bytes htype hbody, Content.ofBytes, if_pos (.inl (by omega))]
    exact ⟨_, rfl⟩

/-- A header that does not fit one record is written all the same, with the wrong count. -/
theorem parse_save_of_long_header (img : Image) {header : String} (h : 252 < header.utf8ByteSize) :
    ∃ e, parse (save img header) = .error e := by
  let field := (Bus.bytes .long 0).drop 2
  let bytes := UInt8.ofNat (2 + header.toUTF8.toList.length + 1) :: field ++ header.toUTF8.toList
  have hbytes : bytes.length = 2 + header.utf8ByteSize + 1 := by
    change (field ++ header.toUTF8.toList).length + 1 = _
    rw [List.length_append, length_toUTF8]
    rfl
  have hlen : 256 < (bytes ++ [~~~Record.sum bytes]).length := by
    rw [List.length_append, hbytes, List.length_singleton]
    omega
  have htype : addressWidth? '0' = some 2 := rfl
  have hnil : RecordLine.Reads readLine {} [] {} := .nil
  obtain ⟨e, he⟩ := hnil.refused (isBlank_mark htype) (List.cons_ne_nil _ _) fun _ =>
    readLine_of_long htype hlen rfl
  rw [parse, toList_save, List.append_assoc, List.append_assoc]
  exact ⟨e, congrArg (Except.map _) he⟩

theorem reads_dataRecords (img : Image) {header : String} (h : header.utf8ByteSize ≤ 252) :
    RecordLine.Reads readLine {}
      (line '0' 2 0 header.toUTF8.toList ++ (dataRecords img).flatMap fun (addr, bytes) =>
        line (shape (top img)).data (shape (top img)).width addr bytes)
      ⟨{ img with start := none }, UInt32.ofNat (dataRecords img).length⟩ := by
  have hdata := reads_dataLines (p := {}) (length_of_mem_dataRecords img)
    (le_top_of_mem_dataRecords img)
  rw [writeAll_dataRecords, UInt32.zero_add] at hdata
  exact (reads_header h).append hdata

/-- A count that does not fit three bytes is cut to them. -/
theorem parse_save_of_many_records {header : String} (h : header.utf8ByteSize ≤ 252)
    (hn : 0xFFFFFF < (dataRecords img).length) : ∃ e, parse (save img header) = .error e := by
  let count := UInt32.ofNat (dataRecords img).length
  have hexact : count.toNat = (dataRecords img).length :=
    UInt32.toNat_ofNat_of_lt' (length_dataRecords_lt img)
  have hcut : Record.number ((Bus.bytes .long count).drop 1) ≠ count := by
    rw [← UInt32.toNat_inj.ne, Record.toNat_number_drop_bytes count 3 (by decide) (by decide)]
    omega
  have hline : countLine count = line '6' 3 count [] :=
    if_neg fun hfew => by
      have hfew : count.toNat ≤ 0xFFFF := UInt32.le_iff_toNat_le.mp hfew
      omega
  have htype : addressWidth? '6' = some 3 := rfl
  obtain ⟨e, he⟩ := (reads_dataRecords img h).refused (isBlank_mark htype)
    (List.cons_ne_nil _ _) fun _ => by
      rw [readLine_of_line htype count [] (by decide) rfl]
      exact ⟨_, if_neg hcut⟩
  rw [parse, toList_save, hline, List.append_assoc]
  exact ⟨e, congrArg (Except.map _) he⟩

/-- Saving and reading gives the image back, with a start, exactly if header and count fit. -/
theorem parse_save_eq_ok_iff (img : Image) (header : String) :
    parse (save img header) = .ok { img with start := some (img.start.getD 0) } ↔
      header.utf8ByteSize ≤ 252 ∧ (dataRecords img).length ≤ 0xFFFFFF := by
  constructor
  · intro hok
    have hnot (h : ∃ e, parse (save img header) = .error e) : False := by
      obtain ⟨e, he⟩ := h
      rw [he] at hok
      cases hok
    have hheader : header.utf8ByteSize ≤ 252 :=
      Nat.le_of_not_lt fun h => hnot (parse_save_of_long_header img h)
    exact ⟨hheader, Nat.le_of_not_lt fun h => hnot (parse_save_of_many_records hheader h)⟩
  · rintro ⟨hheader, hcount⟩
    rw [← UInt32.toNat_ofNat_of_lt' (length_dataRecords_lt img)] at hcount
    have hall := (((reads_dataRecords img hheader).append (reads_countLine rfl hcount)).append
      (reads_finalLine (start_le_top img))).foldlM_ofText
    rw [parse, toList_save]
    exact congrArg (Except.map _) hall

theorem parse_save_header_ne_ok :
    parse (save .empty (String.ofList (List.replicate 253 'A'))) ≠
      .ok { Image.empty with start := some 0 } := by
  intro hok
  have hlong : 252 < (String.ofList (List.replicate 253 'A')).utf8ByteSize := by decide +kernel
  obtain ⟨e, he⟩ := parse_save_of_long_header .empty hlong
  cases he.symm.trans hok

end ColdFire.SRecord
