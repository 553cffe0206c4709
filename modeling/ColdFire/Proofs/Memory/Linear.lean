import ColdFire.Memory.Linear
import ColdFire.Proofs.Memory.Bytes

namespace ColdFire

namespace LinearMemory

variable {m n : LinearMemory} {addr v : UInt32} {size : Size} {bs : List UInt8} {i count : Nat}

@[simp] theorem base_setByte (m : LinearMemory) (i : Nat) (b : UInt8) :
    (m.setByte i b).base = m.base := by
  cases m
  unfold setByte
  dsimp only
  split <;> rfl

@[simp] theorem size_setByte (m : LinearMemory) (i : Nat) (b : UInt8) :
    (m.setByte i b).size = m.size := by
  cases m
  unfold setByte
  dsimp only
  split <;> rfl

@[simp] theorem base_setBytes (m : LinearMemory) (i : Nat) (bs : List UInt8) :
    (m.setBytes i bs).base = m.base := by
  induction bs generalizing m i with
  | nil => rfl
  | cons b rest ih => rw [setBytes, ih, base_setByte]

@[simp] theorem size_setBytes (m : LinearMemory) (i : Nat) (bs : List UInt8) :
    (m.setBytes i bs).size = m.size := by
  induction bs generalizing m i with
  | nil => rfl
  | cons b rest ih => rw [setBytes, ih, size_setByte]

theorem byteAt_setBytes (h : i + bs.length ≤ m.size) (j : Nat) :
    (m.setBytes i bs).byteAt j = if i ≤ j then bs[j - i]?.getD (m.byteAt j) else m.byteAt j := by
  induction bs generalizing m i with
  | nil => simp [setBytes]
  | cons b rest ih =>
    rw [List.length_cons] at h
    rw [setBytes, ih (by rw [size_setByte]; omega), byteAt_setByte]
    by_cases hlt : i + 1 ≤ j
    · have hne : ¬ (i = j ∧ j < m.size) := by omega
      have hsub : j - i = (j - (i + 1)) + 1 := by omega
      rw [if_pos hlt, if_neg hne, if_pos (show i ≤ j by omega), hsub, List.getElem?_cons_succ]
    · rw [if_neg hlt]
      by_cases heq : i = j
      · have hsub : j - i = 0 := by omega
        rw [if_pos ⟨heq, by omega⟩, if_pos (Nat.le_of_eq heq), hsub, List.getElem?_cons_zero,
          Option.getD_some]
      · rw [if_neg fun h => heq h.1, if_neg (show ¬ i ≤ j by omega)]

theorem ext_byteAt (hbase : m.base = n.base) (hsize : m.size = n.size)
    (h : ∀ j, m.byteAt j = n.byteAt j) : m = n := by
  have hcell (m : LinearMemory) (j : Nat) :
      m.nonzero[j]? = if m.byteAt j = 0 then none else some (m.byteAt j) := by
    unfold byteAt
    cases hj : m.nonzero[j]? with
    | none => rfl
    | some b =>
      have hb := (m.nonzero_valid j b hj).2
      rw [Option.getD_some, if_neg hb]
  have hnonzero : m.nonzero = n.nonzero := by
    apply Std.ExtTreeMap.ext_getElem?
    intro j
    rw [hcell, hcell, h]
  cases m
  cases n
  cases hbase
  cases hsize
  cases hnonzero
  rfl

theorem offset_eq_ok : m.offset addr count = .ok i ↔
    ¬ addr < m.base ∧ (addr - m.base).toNat + count ≤ m.size ∧ (addr - m.base).toNat = i := by
  unfold offset
  split
  · rename_i h
    refine ⟨nofun, ?_⟩
    rintro ⟨hle, hroom, -⟩
    rcases h with h | h
    · exact absurd h hle
    · omega
  · rename_i h
    rw [not_or, Nat.not_lt] at h
    rw [Except.ok.injEq]
    exact ⟨fun hi => ⟨h.1, h.2, hi⟩, fun h => h.2.2⟩

theorem read_eq_ok : m.read size addr = .ok v ↔ ∃ i, m.offset addr size.bytes = .ok i ∧
    Bus.value ((List.range size.bytes).map fun k => m.byteAt (i + k)) = v := by
  unfold read
  cases m.offset addr size.bytes with
  | ok i => simp [bind, Except.bind, pure, Except.pure]
  | error e => simp [bind, Except.bind]

theorem write_eq_ok : write size addr v m = .ok () n ↔
    ∃ i, m.offset addr size.bytes = .ok i ∧ m.setBytes i (Bus.bytes size v) = n := by
  unfold write
  cases m.offset addr size.bytes with
  | ok i => simp
  | error e => simp

theorem write_error {cause : String} (h : write size addr v m = .error cause n) : n = m := by
  unfold write at h
  split at h
  · cases h
  · cases h
    rfl

theorem offset_setBytes (m : LinearMemory) (i : Nat) (bs : List UInt8) (addr : UInt32)
    (count : Nat) : (m.setBytes i bs).offset addr count = m.offset addr count := by
  simp only [offset, base_setBytes, size_setBytes, limit]

theorem read_write (h : write size addr v m = .ok () n) :
    n.read size addr = .ok (Bus.value (Bus.bytes size v)) := by
  obtain ⟨i, hi, rfl⟩ := write_eq_ok.1 h
  have hroom := (offset_eq_ok.1 hi).2.1
  have hoff := (offset_eq_ok.1 hi).2.2
  have hlen := Bus.length_bytes size v
  have hbytes : ((List.range size.bytes).map
      fun k => (m.setBytes i (Bus.bytes size v)).byteAt (i + k)) =
      Bus.bytes size v := by
    apply List.ext_getElem
    · rw [List.length_map, List.length_range, hlen]
    · intro k _ hk
      rw [List.getElem_map, List.getElem_range, byteAt_setBytes (by omega), if_pos (by omega),
        Nat.add_sub_cancel_left, List.getElem?_eq_getElem hk, Option.getD_some]
  rw [read_eq_ok]
  exact ⟨i, by rw [offset_setBytes, hi], congrArg Bus.value hbytes⟩

/-- A long is not changed by a write of a long that it has no byte in common with. -/
theorem read_write_of_apart {a w : UInt32} (h : write .long addr v m = .ok () n)
    (hbehind : 4 ≤ (a - addr).toNat) (hbefore : 4 ≤ (addr - a).toNat) :
    n.read .long a = .ok w ↔ m.read .long a = .ok w := by
  obtain ⟨i, hi, rfl⟩ := write_eq_ok.1 h
  rw [read_eq_ok, read_eq_ok, offset_setBytes]
  refine exists_congr fun j => and_congr_right fun hj => ?_
  obtain ⟨-, hroom, hoff⟩ := offset_eq_ok.1 hi
  obtain ⟨-, -, hoff'⟩ := offset_eq_ok.1 hj
  have hlen := Bus.length_bytes .long v
  have hfour : Size.long.bytes = 4 := rfl
  -- The offsets are apart as the addresses are, also where the address space ends between them.
  have hapart : i + 4 ≤ j ∨ j + 4 ≤ i := by
    have haddr := addr.toNat_lt
    have ha := a.toNat_lt
    have hbase := m.base.toNat_lt
    rw [UInt32.toNat_sub] at hoff hoff' hbehind hbefore
    omega
  have hsame : ((List.range Size.long.bytes).map
      fun k => (m.setBytes i (Bus.bytes .long v)).byteAt (j + k)) =
      (List.range Size.long.bytes).map fun k => m.byteAt (j + k) := by
    apply List.map_congr_left
    intro k hk
    have hk : k < 4 := List.mem_range.1 hk
    rw [byteAt_setBytes (by omega)]
    by_cases hle : i ≤ j + k
    · rw [if_pos hle, List.getElem?_eq_none (by omega), Option.getD_none]
    · rw [if_neg hle]
  rw [hsame]

theorem read_write_before {w : UInt32} (h : write .long addr v m = .ok () n)
    (hread : m.read .long (addr + 4) = .ok w) : n.read .long (addr + 4) = .ok w := by
  have haddr := addr.toNat_lt
  have hfour : (4 : UInt32).toNat = 4 := rfl
  rw [read_write_of_apart h]
  · exact hread
  · rw [UInt32.toNat_sub, UInt32.toNat_add, hfour]
    omega
  · rw [UInt32.toNat_sub, UInt32.toNat_add, hfour]
    omega

/-- The bytes that stood somewhere, put back there, undo whatever was written in between. -/
theorem setBytes_setBytes {cs : List UInt8} (hroom : i + bs.length ≤ m.size)
    (hlen : bs.length = cs.length) (hbs : ∀ k (hk : k < bs.length), bs[k] = m.byteAt (i + k)) :
    (m.setBytes i cs).setBytes i bs = m := by
  apply ext_byteAt
  · rw [base_setBytes, base_setBytes]
  · rw [size_setBytes, size_setBytes]
  · intro j
    rw [byteAt_setBytes (by rw [size_setBytes]; exact hroom), byteAt_setBytes (by omega)]
    by_cases hle : i ≤ j
    · rw [if_pos hle, if_pos hle]
      by_cases hin : j - i < bs.length
      · rw [List.getElem?_eq_getElem hin, Option.getD_some, hbs _ hin, Nat.add_sub_cancel' hle]
      · rw [List.getElem?_eq_none (by omega), List.getElem?_eq_none (by omega)]
        rfl
    · rw [if_neg hle, if_neg hle]

end LinearMemory

end ColdFire
