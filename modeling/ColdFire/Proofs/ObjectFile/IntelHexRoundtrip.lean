import ColdFire.ObjectFile.IntelHex
import ColdFire.Proofs.Memory.Segments
import ColdFire.Proofs.ObjectFile.Record

namespace ColdFire.IntelHex

variable {type : UInt8} {offset : UInt16} {data : List UInt8} {p q : Progress} {addr : UInt32}

theorem number_word (v : UInt16) : Record.number (Bus.bytes .word v.toUInt32) = v.toUInt32 :=
  Record.number_drop_bytes 2 (by decide) (by decide) v.toNat_lt

theorem number_long (v : UInt32) : Record.number (Bus.bytes .long v) = v := Bus.value_bytes_long v

theorem ofBytes_of_line {l : RecordLine} (hlen : data.length < 256) :
    let bytes := UInt8.ofNat data.length :: Bus.bytes .word offset.toUInt32 ++ type :: data
    Content.ofBytes l (bytes ++ [-Record.sum bytes]) = .ok ⟨offset.toUInt32, type, data⟩ := by
  intro bytes
  have hsum : Record.sum (bytes ++ [-Record.sum bytes]) = 0 := by
    rw [Record.sum_append_singleton, UInt8.add_right_neg]
  have hcount : (UInt8.ofNat data.length).toNat = data.length := by
    rw [UInt8.toNat_ofNat', Nat.mod_eq_of_lt hlen]
  have hnumber := number_word offset
  simp only [bytes, Bus.bytes, List.cons_append, List.nil_append] at hsum hnumber ⊢
  rw [Content.ofBytes, if_neg (by simp), if_neg (by simp [hcount]), hsum, if_pos rfl, hnumber,
    List.dropLast_concat]

theorem reads_line (hended : p.ended = false) (hlen : data.length < 256)
    (happly : ∀ l, apply l ⟨offset.toUInt32, type, data⟩ p = .ok q) :
    RecordLine.Reads readLine p (line type offset data) q := by
  refine .text (List.forall_mem_singleton.mpr rfl) (List.cons_ne_nil _ _) fun k => ?_
  rw [readLine, if_neg (by rw [hended]; decide), Content.ofLine]
  dsimp only
  rw [Text.afterMark?_append]
  dsimp only
  rw [Record.bytes_digits]
  dsimp only
  rw [ofBytes_of_line hlen]
  exact happly _

theorem reads_upper (hended : p.ended = false) (high : UInt16) :
    RecordLine.Reads readLine p (line 4 0 (Bus.bytes .word high.toUInt32))
      { p with upper := high.toUInt32 <<< 16 } :=
  reads_line hended (by simp [Bus.bytes]) fun l => by
    change Except.ok { p with upper := Record.number (Bus.bytes .word high.toUInt32) <<< 16 } = _
    rw [number_word]

theorem upper_add_lower (addr : UInt32) :
    ((addr >>> 16).toUInt16.toUInt32 <<< 16) + addr.toUInt16.toUInt32 = addr := by
  have haddr := addr.toNat_lt
  have hhigh : (addr >>> 16).toUInt16.toUInt32.toNat = addr.toNat / 65536 := by
    rw [UInt16.toNat_toUInt32, UInt32.toNat_toUInt16, UInt32.toNat_shiftRight]
    change addr.toNat >>> 16 % 65536 = _
    rw [Nat.shiftRight_eq_div_pow]
    omega
  have hlow : addr.toUInt16.toUInt32.toNat = addr.toNat % 65536 := by
    rw [UInt16.toNat_toUInt32, UInt32.toNat_toUInt16]
  rw [← UInt32.toNat_inj, UInt32.toNat_add, UInt32.toNat_shiftLeft, hhigh, hlow]
  change ((addr.toNat / 65536) <<< 16 % 2 ^ 32 + addr.toNat % 65536) % 2 ^ 32 = addr.toNat
  rw [Nat.shiftLeft_eq]
  omega

/-- Runs of bytes are read back, from the upper address that is in force. -/
theorem reads_dataLines {runs : List (UInt32 × List UInt8)} (upper : Option UInt16)
    (hended : p.ended = false)
    (hupper : ∀ high, upper = some high → p.upper = high.toUInt32 <<< 16)
    (hlen : ∀ run ∈ runs, run.2.length < 256) :
    ∃ u, RecordLine.Reads readLine p (dataLines upper runs)
      { p with image := p.image.writeAll runs, upper := u } := by
  induction runs generalizing p upper with
  | nil => exact ⟨p.upper, .nil⟩
  | cons run rest ih =>
    obtain ⟨addr, bytes⟩ := run
    obtain ⟨hbytes, hrest⟩ := List.forall_mem_cons.mp hlen
    let high := (addr >>> 16).toUInt16
    -- a record for the upper address stands in front only if another one is in force
    have hturn : RecordLine.Reads readLine p
        (if upper = some high then [] else line 4 0 (Bus.bytes .word high.toUInt32))
        { p with upper := high.toUInt32 <<< 16 } := by
      split
      · rename_i hsame
        rw [← hupper high hsame]
        exact .nil
      · exact reads_upper hended high
    have hdata : RecordLine.Reads readLine { p with upper := high.toUInt32 <<< 16 }
        (line 0 addr.toUInt16 bytes)
        { p with image := p.image.writeBytes addr bytes, upper := high.toUInt32 <<< 16 } :=
      reads_line hended hbytes fun l => by
        change Except.ok { p with
          image := p.image.writeBytes ((high.toUInt32 <<< 16) + addr.toUInt16.toUInt32) bytes
          upper := high.toUInt32 <<< 16 } = _
        rw [upper_add_lower]
    obtain ⟨u, hlater⟩ := ih (p := { p with
      image := p.image.writeBytes addr bytes, upper := high.toUInt32 <<< 16 }) (some high)
      hended (fun _ h => Option.some.inj h ▸ rfl) hrest
    exact ⟨u, (hturn.append hdata).append hlater⟩

/-- What one record takes each, written in order, is the whole run. -/
theorem writeAll_shares (img : Image) (addr : UInt32) (bytes : List UInt8) :
    img.writeAll (shares addr bytes) = img.writeBytes addr bytes := by
  fun_induction shares addr bytes generalizing img with
  | case1 => rfl
  | case2 addr b rest n ih => rw [Image.writeAll_cons, ih, Image.writeBytes_take_drop]

theorem length_of_mem_shares {addr : UInt32} {bytes : List UInt8} :
    ∀ run ∈ shares addr bytes, run.2.length ≤ Record.width := by
  fun_induction shares addr bytes with
  | case1 => exact List.forall_mem_nil _
  | case2 addr b rest n ih =>
    refine List.forall_mem_cons.mpr ⟨?_, ih⟩
    rw [List.length_take]
    simp only [n, share]
    omega

theorem reads_start (hended : p.ended = false) (hstart : p.image.start = none)
    (start : Option UInt32) :
    RecordLine.Reads readLine p
      (match start with
        | some addr => line 5 0 (Bus.bytes .long addr)
        | none => [])
      { p with image := { p.image with start := start } } := by
  cases start with
  | none =>
    have hsame : { p.image with start := none } = p.image := hstart ▸ rfl
    rw [hsame]
    exact .nil
  | some addr =>
    refine reads_line hended (by simp [Bus.bytes]) fun l => ?_
    change Except.ok { p with
      image := { p.image with start := some (Record.number (Bus.bytes .long addr)) } } = _
    rw [number_long]

/-- An image that was saved is read back. -/
theorem parse_save (img : Image) : parse (save img) = .ok img := by
  let runs := img.segments.flatMap fun s => shares s.base s.bytes.toList
  have hlen : ∀ run ∈ runs, run.2.length < 256 := by
    intro run hrun
    obtain ⟨s, -, hs⟩ := List.mem_flatMap.mp hrun
    exact Nat.lt_of_le_of_lt (length_of_mem_shares run hs) (by decide)
  have hwrite : Image.empty.writeAll runs = { img with start := none } :=
    (Image.writeAll_flatMap writeAll_shares _).trans (Image.write_segments img)
  obtain ⟨u, hdata⟩ := reads_dataLines (p := {}) none rfl nofun hlen
  have hstart := reads_start (p := { upper := u, image := Image.empty.writeAll runs }) rfl
    (by rw [hwrite]) img.start
  rw [hwrite] at hdata hstart
  have hend : RecordLine.Reads readLine { image := img, upper := u } (line 1 0 [])
      { image := img, upper := u, ended := true } := reads_line rfl (by decide) fun l => rfl
  have hall := ((hdata.append hstart).append hend).foldlM_ofText
  rw [parse, save, String.toList_ofList]
  exact except_bind_eq_ok.2 ⟨_, hall, rfl⟩

end ColdFire.IntelHex
