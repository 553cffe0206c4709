import ColdFire.Proofs.Memory.Bytes
import ColdFire.Proofs.Memory.Segments
import Mathlib.Data.List.Sort

namespace ColdFire

namespace Segment

variable {segments : List Segment} {s : Segment} {addr : UInt32} {b : UInt8}

/-- Runs of bytes in ascending order: none is empty, none follows another without a gap, and none
goes beyond the highest address. -/
structure Runs (segments : List Segment) : Prop where
  filled : ∀ s ∈ segments, 0 < s.bytes.size
  apart : segments.Pairwise fun s t => s.limit < t.base.toNat
  inside : ∀ s ∈ segments, s.limit ≤ 2 ^ 32

theorem runs_concat : Runs (segments ++ [s]) ↔ Runs segments ∧ 0 < s.bytes.size ∧
    s.limit ≤ 2 ^ 32 ∧ ∀ t ∈ segments, t.limit < s.base.toNat := by
  constructor
  · rintro ⟨hfilled, hapart, hinside⟩
    obtain ⟨hfilled, hs⟩ := List.forall_mem_append.mp hfilled
    obtain ⟨hinside, hs'⟩ := List.forall_mem_append.mp hinside
    obtain ⟨hapart, -, hbefore⟩ := List.pairwise_append.mp hapart
    exact ⟨⟨hfilled, hapart, hinside⟩, hs s List.mem_cons_self, hs' s List.mem_cons_self,
      fun t ht => hbefore t ht s List.mem_cons_self⟩
  · rintro ⟨⟨hfilled, hapart, hinside⟩, hs, hs', hbefore⟩
    exact {
      filled := List.forall_mem_append.mpr ⟨hfilled, List.forall_mem_singleton.mpr hs⟩
      apart := List.pairwise_append.mpr ⟨hapart, List.pairwise_singleton _ _,
        fun t ht => List.forall_mem_singleton.mpr (hbefore t ht)⟩
      inside := List.forall_mem_append.mpr ⟨hinside, List.forall_mem_singleton.mpr hs'⟩ }

/-- How many addresses runs take, each with the one behind it. -/
def room : List Segment → Nat
  | [] => 0
  | s :: rest => s.bytes.size + 1 + room rest

theorem Runs.room_le (h : Runs segments) (low : Nat) (hlow : ∀ s ∈ segments, low ≤ s.base.toNat)
    (hle : low ≤ 2 ^ 32 + 1) : low + room segments ≤ 2 ^ 32 + 1 := by
  -- `low` is where the next run may begin, one behind the end of the last
  induction segments generalizing low with
  | nil => exact hle
  | cons s rest ih =>
    obtain ⟨-, hfilled⟩ := List.forall_mem_cons.mp h.filled
    obtain ⟨hgap, hapart⟩ := List.pairwise_cons.mp h.apart
    obtain ⟨hlimit, hinside⟩ := List.forall_mem_cons.mp h.inside
    obtain ⟨hbase, -⟩ := List.forall_mem_cons.mp hlow
    have hrest := ih ⟨hfilled, hapart, hinside⟩ (s.limit + 1) hgap (Nat.succ_le_succ hlimit)
    rw [limit] at hrest
    rw [room]
    omega

theorem toNat_of_mem_entries (hs : s.limit ≤ 2 ^ 32) (h : (addr, b) ∈ s.entries) :
    s.base.toNat ≤ addr.toNat ∧ addr.toNat < s.limit := by
  obtain ⟨i, hi, heq⟩ := List.mem_mapIdx.mp h
  rw [Array.length_toList] at hi
  rw [limit] at hs ⊢
  have haddr : addr.toNat = s.base.toNat + i := by
    rw [← (Prod.mk.inj heq).1, toNat_add_ofNat (by omega)]
  omega

end Segment

namespace Image

open Segment (Runs)

variable {img : Image} {addr : UInt32} {b : UInt8} {done segments : List Segment}

section Runs

/-- A byte behind all runs makes the last one longer or begins another. -/
theorem runs_extendSegments (hdone : Runs done.reverse)
    (hbehind : ∀ s ∈ done, s.limit ≤ addr.toNat) :
    Runs (extendSegments done addr b).reverse := by
  have haddr := addr.toNat_lt
  cases done with
  | nil =>
    change Runs ([] ++ [⟨addr, #[b]⟩])
    exact Segment.runs_concat.2 ⟨hdone, Nat.one_pos, haddr, List.forall_mem_nil _⟩
  | cons last rest =>
    rw [List.reverse_cons] at hdone
    obtain ⟨hrest, hfilled, -, hbefore⟩ := Segment.runs_concat.1 hdone
    have hlast : last.base.toNat + last.bytes.size ≤ addr.toNat := hbehind last List.mem_cons_self
    rw [extendSegments]
    split
    · -- the byte follows the last run and makes it longer
      rename_i hnext
      rw [List.reverse_cons]
      refine Segment.runs_concat.2 ⟨hrest, ?_, ?_, hbefore⟩
      · rw [Array.size_push]
        exact Nat.succ_pos _
      · rw [Segment.limit, Array.size_push]
        change last.base.toNat + (last.bytes.size + 1) ≤ 2 ^ 32
        omega
    · -- there is a gap, and the byte begins a run
      rename_i hgap
      rw [List.reverse_cons, List.reverse_cons]
      refine Segment.runs_concat.2 ⟨hdone, Nat.one_pos, haddr, ?_⟩
      refine List.forall_mem_append.mpr ⟨fun t ht => ?_, List.forall_mem_singleton.mpr ?_⟩
      · have hlimit := hbefore t ht
        change t.limit < addr.toNat
        omega
      · change last.base.toNat + last.bytes.size < addr.toNat
        omega

theorem pairwise_toList (img : Image) : img.toList.Pairwise fun e f => e.1 < f.1 :=
  Std.ExtTreeMap.ordered_keys_toList.imp Std.compare_eq_lt.mp

theorem runs_segments (img : Image) : Runs img.segments := by
  -- The bytes that are still to come stand behind all runs so far.
  suffices h : ∀ (entries : List (UInt32 × UInt8)) (done : List Segment),
      entries.Pairwise (fun e f => e.1 < f.1) → Runs done.reverse →
        (∀ e ∈ entries, ∀ s ∈ done, s.limit ≤ e.1.toNat) →
          Runs (entries.foldl (fun done e => extendSegments done e.1 e.2) done).reverse by
    rw [segments, Std.ExtTreeMap.foldl_eq_foldl_toList]
    refine h img.toList [] img.pairwise_toList ⟨?_, List.Pairwise.nil, ?_⟩ ?_
    · exact List.forall_mem_nil _
    · exact List.forall_mem_nil _
    · exact fun _ _ => List.forall_mem_nil _
  intro entries
  induction entries with
  | nil => exact fun done _ hdone _ => hdone
  | cons e rest ih =>
    intro done hsorted hdone hbehind
    obtain ⟨hfirst, hsorted⟩ := List.pairwise_cons.mp hsorted
    obtain ⟨he, -⟩ := List.forall_mem_cons.mp hbehind
    refine ih _ hsorted (runs_extendSegments hdone he) fun f hf => ?_
    have hlt : e.1.toNat < f.1.toNat := hfirst f hf
    exact limit_extendSegments (fun s hs => Nat.le_trans (he s hs) (Nat.le_of_lt hlt)) hlt

end Runs

section Unique

theorem foldl_placed_of_open (base : UInt32) (bytes : Array UInt8) (bs : List UInt8)
    (hinside : base.toNat + bytes.size + bs.length ≤ 2 ^ 32) :
    (placed (base + UInt32.ofNat bytes.size) bs).foldl
      (fun done e => extendSegments done e.1 e.2) (⟨base, bytes⟩ :: done) =
        ⟨base, bytes ++ bs.toArray⟩ :: done := by
  induction bs generalizing bytes with
  | nil => rw [Array.append_empty]; rfl
  | cons b rest ih =>
    rw [List.length_cons] at hinside
    have hplace : base.toNat + bytes.size = (base + UInt32.ofNat bytes.size).toNat :=
      (toNat_add_ofNat (by omega)).symm
    have hnext : base + UInt32.ofNat bytes.size + 1 = base + UInt32.ofNat (bytes.push b).size := by
      rw [Array.size_push, UInt32.ofNat_add, UInt32.add_assoc]
      rfl
    have hrest := ih (bytes.push b) (by rw [Array.size_push]; omega)
    have hbytes : bytes.push b ++ rest.toArray = bytes ++ (b :: rest).toArray := by
      apply Array.ext'
      simp
    rw [placed_cons, List.foldl_cons, extendSegments, if_pos hplace, hnext, hrest, hbytes]

theorem foldl_entries_of_gap {s : Segment} (hfilled : 0 < s.bytes.size) (hinside : s.limit ≤ 2 ^ 32)
    (hgap : ∀ t ∈ done, t.limit ≠ s.base.toNat) :
    s.entries.foldl (fun done e => extendSegments done e.1 e.2) done = s :: done := by
  obtain ⟨base, bytes⟩ := s
  have hlength : 0 < bytes.toList.length := hfilled
  obtain ⟨b, rest, hbytes⟩ := List.exists_cons_of_length_pos hlength
  have hnew : extendSegments done base b = ⟨base, #[b]⟩ :: done := by
    cases done with
    | nil => rfl
    | cons last rest => exact if_neg (hgap last List.mem_cons_self)
  have hlimit : base.toNat + #[b].size + rest.length ≤ 2 ^ 32 := by
    have hsize : bytes.size = rest.length + 1 := congrArg List.length hbytes
    change base.toNat + bytes.size ≤ 2 ^ 32 at hinside
    change base.toNat + 1 + rest.length ≤ 2 ^ 32
    omega
  have hwhole : #[b] ++ rest.toArray = bytes := by
    apply Array.ext'
    simp [hbytes]
  rw [Segment.entries, hbytes, placed_cons, List.foldl_cons, hnew]
  exact (foldl_placed_of_open base #[b] rest hlimit).trans (by rw [hwhole])

/-- Runs that are taken apart into bytes come together again. -/
theorem foldl_entries (h : Runs (done.reverse ++ segments)) :
    (segments.flatMap Segment.entries).foldl (fun done e => extendSegments done e.1 e.2) done =
      segments.reverse ++ done := by
  -- run by run, since the gap in front of each keeps it from being joined to those done
  induction segments generalizing done with
  | nil => rfl
  | cons s rest ih =>
    have hs : s ∈ done.reverse ++ s :: rest := List.mem_append_right _ List.mem_cons_self
    have hgap : ∀ t ∈ done, t.limit ≠ s.base.toNat := fun t ht =>
      Nat.ne_of_lt ((List.pairwise_append.mp h.apart).2.2 t (List.mem_reverse.mpr ht) s
        List.mem_cons_self)
    rw [List.flatMap_cons, List.foldl_append,
      foldl_entries_of_gap (h.filled s hs) (h.inside s hs) hgap, ih, List.reverse_cons,
      List.append_assoc, List.singleton_append]
    rwa [List.reverse_cons, List.append_assoc, List.singleton_append]

theorem pairwise_placed {bs : List UInt8} (h : addr.toNat + bs.length ≤ 2 ^ 32) :
    (placed addr bs).Pairwise fun e f => e.1 < f.1 := by
  rw [List.pairwise_iff_getElem]
  intro i j hi hj hlt
  rw [placed, List.length_mapIdx] at hi hj
  simp only [placed, List.getElem_mapIdx]
  rw [UInt32.lt_iff_toNat_lt, toNat_add_ofNat (by omega), toNat_add_ofNat (by omega)]
  omega

theorem pairwise_entries (h : Runs segments) :
    (segments.flatMap Segment.entries).Pairwise fun e f => e.1 < f.1 := by
  refine List.pairwise_flatMap.mpr ⟨fun s hs => pairwise_placed (h.inside s hs), ?_⟩
  refine List.Pairwise.imp_of_mem (fun {s t} hs ht hlt => ?_) h.apart
  intro e he f hf
  have hbefore := (Segment.toNat_of_mem_entries (h.inside s hs) he).2
  have hbehind := (Segment.toNat_of_mem_entries (h.inside t ht) hf).1
  exact Nat.lt_of_lt_of_le (Nat.lt_trans hbefore hlt) hbehind

theorem mem_entries_segments :
    (addr, b) ∈ img.segments.flatMap Segment.entries ↔ img.get? addr = some b := by
  rw [entries_segments]
  exact mem_toList

theorem segments_eq_iff : img.segments = segments ↔ Runs segments ∧
    ∀ a b, (a, b) ∈ segments.flatMap Segment.entries ↔ img.get? a = some b := by
  constructor
  · rintro rfl
    exact ⟨runs_segments img, fun _ _ => mem_entries_segments⟩
  · rintro ⟨hruns, hlist⟩
    have hirrefl : Std.Irrefl fun e f : UInt32 × UInt8 => e.1 < f.1 := ⟨fun e => UInt32.lt_irrefl e.1⟩
    have hantisymm : Std.Antisymm fun e f : UInt32 × UInt8 => e.1 < f.1 :=
      ⟨fun e f hlt hgt => absurd (UInt32.lt_trans hlt hgt) (UInt32.lt_irrefl e.1)⟩
    -- two lists in ascending order with the same members are one list
    have hbytes : segments.flatMap Segment.entries = img.toList :=
      (pairwise_entries hruns).eq_of_mem_iff img.pairwise_toList fun e =>
        (hlist e.1 e.2).trans mem_toList.symm
    have htogether : (segments.flatMap Segment.entries).foldl
        (fun done e => extendSegments done e.1 e.2) [] = segments.reverse ++ [] :=
      foldl_entries hruns
    rw [Image.segments, Std.ExtTreeMap.foldl_eq_foldl_toList]
    change (img.toList.foldl (fun done e => extendSegments done e.1 e.2) []).reverse = segments
    rw [← hbytes, htogether, List.append_nil, List.reverse_reverse]

theorem segments_inj {img' : Image} :
    img.segments = img'.segments ↔ ∀ a, img.get? a = img'.get? a := by
  constructor
  · intro h a
    refine Option.ext fun b => ?_
    rw [← mem_entries_segments, h, mem_entries_segments]
  · intro h
    rw [segments_eq_iff]
    exact ⟨runs_segments img', fun a b => by rw [mem_entries_segments, h]⟩

end Unique

inductive Write where
  | set (addr : UInt32) (b : UInt8)
  | bytes (addr : UInt32) (bs : List UInt8)
  | words (addr : UInt32) (ws : List UInt16)

namespace Write

def apply (img : Image) : Write → Image
  | set addr b => img.set addr b
  | bytes addr bs => img.writeBytes addr bs
  | words addr ws => img.writeWords addr ws

def entries : Write → List (UInt32 × UInt8)
  | set addr b => [(addr, b)]
  | bytes addr bs => placed addr bs
  | words addr ws =>
    (ws.mapIdx fun i w => placed (addr + UInt32.ofNat (2 * i)) (Bus.bytes .word w.toUInt32)).flatten

end Write

/-- The image that some writes make of an empty one. -/
def written (writes : List Write) : Image := writes.foldl Write.apply empty

def lastByte? (writes : List Write) (addr : UInt32) : Option UInt8 :=
  (writes.flatMap Write.entries).reverse.lookup addr

section Written

theorem placed_wordBytes (addr : UInt32) (ws : List UInt16) :
    placed addr (wordBytes ws) = (Write.words addr ws).entries := by
  induction ws generalizing addr with
  | nil => rfl
  | cons w rest ih =>
    have hfirst : addr + UInt32.ofNat (2 * 0) = addr := UInt32.add_zero addr
    have hnext (i : Nat) : addr + UInt32.ofNat (2 * (i + 1)) = addr + 2 + UInt32.ofNat (2 * i) :=
      add_ofNat_add addr (2 * i) 2
    have hrest := ih (addr + 2)
    rw [Write.entries] at hrest ⊢
    rw [List.mapIdx_cons, List.flatten_cons, hfirst]
    simp only [hnext]
    rw [← hrest, wordBytes, List.flatMap_cons, placed_append, Bus.length_bytes]
    rfl

theorem apply_eq_setAll (w : Write) : w.apply img = img.setAll w.entries := by
  cases w with
  | set addr b => rfl
  | bytes addr bs => exact writeBytes_eq_setAll img addr bs
  | words addr ws =>
    rw [Write.apply, writeWords, writeBytes_eq_setAll, placed_wordBytes]

theorem written_eq_setAll (writes : List Write) :
    written writes = empty.setAll (writes.flatMap Write.entries) := by
  rw [written, setAll, List.foldl_flatMap]
  exact congrArg (List.foldl · empty writes) (funext fun img => funext apply_eq_setAll)

/-- Of the bytes that are set at an address the last one stays. -/
theorem get?_setAll_eq_lookup (entries : List (UInt32 × UInt8)) (a : UInt32) :
    (img.setAll entries).get? a = (entries.reverse.lookup a).or (img.get? a) := by
  induction entries generalizing img with
  | nil => rfl
  | cons e rest ih =>
    obtain ⟨addr, b⟩ := e
    have hfirst : (img.set addr b).get? a = ([(addr, b)].lookup a).or (img.get? a) := by
      rw [get?_set]
      by_cases heq : a = addr
      · rw [if_pos heq, heq, List.lookup_cons_self, Option.some_or]
      · rw [if_neg heq, List.lookup_cons, beq_eq_false_iff_ne.mpr heq]
        rfl
    rw [setAll, List.foldl_cons, ← setAll, ih, hfirst, List.reverse_cons, List.lookup_append,
      Option.or_assoc]

theorem get?_written (writes : List Write) (a : UInt32) :
    (written writes).get? a = lastByte? writes a := by
  rw [written_eq_setAll, get?_setAll_eq_lookup, show empty.get? a = none from
    Std.ExtTreeMap.getElem?_empty, Option.or_none, lastByte?]

/-- Whatever is written to an image, its segments are runs that list the byte written last at every
address, they make the same image when they are written, and no image of other bytes has them. -/
theorem segments_canonical (writes : List Write) :
    let img := written writes
    (∀ a, img.get? a = lastByte? writes a) ∧
      Runs img.segments ∧
      (∀ a b, (a, b) ∈ img.segments.flatMap Segment.entries ↔ lastByte? writes a = some b) ∧
      img.segments.foldl (fun i s => i.writeBytes s.base s.bytes.toList) empty = img ∧
      ∀ img' : Image, img.segments = img'.segments ↔ ∀ a, img.get? a = img'.get? a := by
  intro img
  have hstart : img.start = none := by
    rw [show img = _ from written_eq_setAll writes, start_setAll]
    rfl
  refine ⟨get?_written writes, runs_segments img, fun a b => ?_, ?_, fun _ => segments_inj⟩
  · rw [mem_entries_segments, ← get?_written]
  · rw [write_segments, ← hstart]

-- Behind the highest address the lowest follows, but not in the same segment.
example : (written [.bytes 0xFFFFFFFF [1, 2], .set 0xFFFFFFFF 3]).segments =
    [⟨0, #[2]⟩, ⟨0xFFFFFFFF, #[3]⟩] := by decide

end Written

end Image

end ColdFire
