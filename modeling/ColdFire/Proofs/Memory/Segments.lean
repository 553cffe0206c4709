import ColdFire.Proofs.Memory.Image

namespace ColdFire

namespace Image

variable {img : Image} {addr : UInt32} {b : UInt8} {done : List Segment} {limit : Nat}

theorem writeBytes_take_drop (img : Image) (addr : UInt32) (n : Nat) (bs : List UInt8) :
    (img.writeBytes addr (bs.take n)).writeBytes (addr + UInt32.ofNat n) (bs.drop n) =
      img.writeBytes addr bs := by
  by_cases hn : n ≤ bs.length
  · have hcut := writeBytes_append img addr (bs.take n) (bs.drop n)
    rw [List.take_append_drop, List.length_take_of_le hn] at hcut
    exact hcut.symm
  · rw [List.take_of_length_le (by omega), List.drop_eq_nil_of_le (by omega), writeBytes]

def writeAll (img : Image) (runs : List (UInt32 × List UInt8)) : Image :=
  runs.foldl (fun img run => img.writeBytes run.1 run.2) img

@[simp] theorem writeAll_cons (bs : List UInt8) (runs : List (UInt32 × List UInt8)) :
    img.writeAll ((addr, bs) :: runs) = (img.writeBytes addr bs).writeAll runs := rfl

theorem writeAll_flatMap {cut : UInt32 → List UInt8 → List (UInt32 × List UInt8)}
    (hcut : ∀ (img : Image) addr bs, img.writeAll (cut addr bs) = img.writeBytes addr bs)
    (segments : List Segment) :
    img.writeAll (segments.flatMap fun s => cut s.base s.bytes.toList) =
      segments.foldl (fun img s => img.writeBytes s.base s.bytes.toList) img := by
  rw [writeAll, List.foldl_flatMap]
  exact congrArg (List.foldl · img segments) (funext fun img => funext fun s => hcut img _ _)

def setAll (img : Image) (entries : List (UInt32 × UInt8)) : Image :=
  entries.foldl (fun img e => img.set e.1 e.2) img

@[simp] theorem start_setAll (entries : List (UInt32 × UInt8)) :
    (img.setAll entries).start = img.start := by
  induction entries generalizing img with
  | nil => rfl
  | cons e rest ih => exact ih

/-- Bytes with the addresses where they stand, from one address on. Behind the highest address the
lowest follows. -/
def placed (addr : UInt32) (bs : List UInt8) : List (UInt32 × UInt8) :=
  bs.mapIdx fun i b => (addr + UInt32.ofNat i, b)

end Image

def Segment.entries (s : Segment) : List (UInt32 × UInt8) := Image.placed s.base s.bytes.toList

namespace Image

variable {img : Image} {addr : UInt32} {b : UInt8} {done : List Segment} {limit : Nat}

theorem placed_cons (addr : UInt32) (b : UInt8) (bs : List UInt8) :
    placed addr (b :: bs) = (addr, b) :: placed (addr + 1) bs := by
  have hnext (i : Nat) : addr + UInt32.ofNat (i + 1) = addr + 1 + UInt32.ofNat i :=
    add_ofNat_add addr i 1
  rw [placed, List.mapIdx_cons, placed, List.cons.injEq]
  refine ⟨congrArg (·, b) (UInt32.add_zero addr), ?_⟩
  simp only [hnext]

theorem placed_append (addr : UInt32) (bs cs : List UInt8) :
    placed addr (bs ++ cs) = placed addr bs ++ placed (addr + UInt32.ofNat bs.length) cs := by
  rw [placed, List.mapIdx_append, placed, placed]
  simp only [add_ofNat_add]

/-- Writing bytes sets each of them where it is placed. -/
theorem writeBytes_eq_setAll (img : Image) (addr : UInt32) (bs : List UInt8) :
    img.writeBytes addr bs = img.setAll (placed addr bs) := by
  induction bs generalizing img addr with
  | nil => rfl
  | cons b rest ih =>
    rw [writeBytes, ih, placed_cons]
    rfl

theorem get?_setAll {f : UInt32 → Option UInt8} {entries : List (UInt32 × UInt8)}
    (h : ∀ e ∈ entries, f e.1 = some e.2) (a : UInt32) :
    (img.setAll entries).get? a = if a ∈ entries.map Prod.fst then f a else img.get? a := by
  induction entries generalizing img with
  | nil => rfl
  | cons e rest ih =>
    obtain ⟨he, hrest⟩ := List.forall_mem_cons.mp h
    have hset : (img.setAll (e :: rest)).get? a =
        if a ∈ rest.map Prod.fst then f a else if a = e.1 then some e.2 else img.get? a := by
      rw [← get?_set, ← ih hrest]
      rfl
    have hmem : a ∈ (e :: rest).map Prod.fst ↔ a = e.1 ∨ a ∈ rest.map Prod.fst := List.mem_cons
    rw [hset]
    by_cases hlater : a ∈ rest.map Prod.fst
    · rw [if_pos hlater, if_pos (hmem.mpr (.inr hlater))]
    · rw [if_neg hlater]
      by_cases hnow : a = e.1
      · rw [if_pos hnow, if_pos (hmem.mpr (.inl hnow)), hnow, he]
      · rw [if_neg hnow, if_neg (not_or.mpr ⟨hnow, hlater⟩ ∘ hmem.mp)]

theorem mem_toList {e : UInt32 × UInt8} : e ∈ img.toList ↔ img.get? e.1 = some e.2 :=
  Std.ExtTreeMap.mem_toList_iff_getElem?_eq_some

theorem setAll_toList (img : Image) : empty.setAll img.toList = { img with start := none } := by
  refine ext_get? (start_setAll _) fun a => ?_
  change _ = img.get? a
  rw [get?_setAll (f := img.get?) fun e he => mem_toList.1 he]
  split
  · rfl
  · rename_i hnone
    cases hget : img.get? a with
    | none => rfl
    | some b => exact absurd (List.mem_map.mpr ⟨(a, b), mem_toList.2 hget, rfl⟩) hnone

theorem entries_extendSegments :
    (extendSegments done addr b).reverse.flatMap Segment.entries =
      done.reverse.flatMap Segment.entries ++ [(addr, b)] := by
  have hone : placed addr [b] = [(addr, b)] := placed_cons addr b []
  cases done with
  | nil => exact hone
  | cons last rest =>
    rw [extendSegments]
    split
    · rename_i hnext
      have hinside : last.base.toNat + last.bytes.size < 2 ^ 32 := hnext ▸ addr.toNat_lt
      have haddr : last.base + UInt32.ofNat last.bytes.toList.length = addr := by
        rw [← UInt32.toNat_inj, Array.length_toList, toNat_add_ofNat hinside, hnext]
      have hlast : Segment.entries ⟨last.base, last.bytes.push b⟩ =
          last.entries ++ [(addr, b)] := by
        rw [Segment.entries, Array.toList_push, placed_append, haddr, hone]
        rfl
      simp only [List.reverse_cons, List.flatMap_append, List.flatMap_singleton, hlast,
        List.append_assoc]
    · simp only [List.reverse_cons, List.flatMap_append, List.flatMap_singleton]
      exact congrArg _ hone

theorem entries_segments (img : Image) : img.segments.flatMap Segment.entries = img.toList := by
  suffices h : ∀ (entries : List (UInt32 × UInt8)) (done : List Segment),
      (entries.foldl (fun done e => extendSegments done e.1 e.2) done).reverse.flatMap
        Segment.entries = done.reverse.flatMap Segment.entries ++ entries by
    rw [segments, Std.ExtTreeMap.foldl_eq_foldl_toList]
    exact h img.toList []
  intro entries
  induction entries with
  | nil => exact fun done => (List.append_nil _).symm
  | cons e rest ih =>
    intro done
    rw [List.foldl_cons, ih, entries_extendSegments, List.append_assoc, List.singleton_append]

/-- The segments, written one after another, map what the image maps. -/
theorem write_segments (img : Image) :
    img.segments.foldl (fun i s => i.writeBytes s.base s.bytes.toList) empty =
      { img with start := none } := by
  rw [← setAll_toList, ← entries_segments, setAll, List.foldl_flatMap]
  exact congrArg (List.foldl · empty img.segments)
    (funext fun i => funext fun s => writeBytes_eq_setAll i s.base s.bytes.toList)

theorem copyTo_eq_storeAll {β : Type} [Bus β] (img : Image) :
    (img.copyTo : EStateM String β Unit) = storeAll (img.segments.flatMap Segment.entries) := by
  rw [entries_segments, copyTo]

theorem limit_extendSegments (hdone : ∀ s ∈ done, s.limit ≤ limit) (haddr : addr.toNat < limit) :
    ∀ s ∈ extendSegments done addr b, s.limit ≤ limit := by
  cases done with
  | nil => exact List.forall_mem_singleton.mpr haddr
  | cons last rest =>
    obtain ⟨hlast, hrest⟩ := List.forall_mem_cons.mp hdone
    rw [extendSegments]
    split
    · rename_i hnext
      refine List.forall_mem_cons.mpr ⟨?_, hrest⟩
      rw [Segment.limit, Array.size_push, ← Nat.add_assoc, hnext]
      exact haddr
    · exact List.forall_mem_cons.mpr ⟨haddr, hdone⟩

theorem limit_le_of_mem_segments (h : ∀ a b, img.get? a = some b → a.toNat < limit) :
    ∀ s ∈ img.segments, s.limit ≤ limit := by
  suffices hfold : ∀ (entries : List (UInt32 × UInt8)) (done : List Segment),
      (∀ e ∈ entries, e.1.toNat < limit) → (∀ s ∈ done, s.limit ≤ limit) →
        ∀ s ∈ entries.foldl (fun done e => extendSegments done e.1 e.2) done, s.limit ≤ limit by
    intro s hs
    rw [segments, List.mem_reverse, Std.ExtTreeMap.foldl_eq_foldl_toList] at hs
    exact hfold img.toList [] (fun e he => h _ _ (mem_toList.1 he)) (List.forall_mem_nil _) s hs
  intro entries
  induction entries with
  | nil => exact fun done _ hdone => hdone
  | cons e rest ih =>
    intro done hentries hdone
    obtain ⟨he, hrest⟩ := List.forall_mem_cons.mp hentries
    exact ih _ hrest (limit_extendSegments hdone he)

/-- An image with a mapped address has bounds, and the address is within them. -/
theorem exists_bounds_of_get? (h : img.get? addr = some b) :
    ∃ low high : UInt32, img.bounds? = some (low, high.toNat + 1) ∧ addr ≤ high := by
  have hmem : addr ∈ img.bytes :=
    Std.ExtTreeMap.mem_iff_isSome_getElem?.mpr (Option.isSome_of_eq_some h)
  obtain ⟨low, hlow⟩ := Option.isSome_iff_exists.mp (Std.ExtTreeMap.isSome_minKey?_of_mem hmem)
  obtain ⟨high, hhigh⟩ := Option.isSome_iff_exists.mp (Std.ExtTreeMap.isSome_maxKey?_of_mem hmem)
  refine ⟨low, high, by rw [bounds?, hlow, hhigh], ?_⟩
  have hlast := (Std.ExtTreeMap.maxKey?_eq_some_iff_mem_and_forall.1 hhigh).2
  exact Std.isLE_compare.mp (hlast addr hmem)

end Image

end ColdFire
