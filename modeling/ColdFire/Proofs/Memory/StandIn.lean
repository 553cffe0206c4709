import ColdFire.Proofs.Memory.Lawful

namespace ColdFire

/-- Buses of the second kind may stand in for those of the first: as long as two are alike, the second
does whatever the first one does, and they stay alike. What the first one refuses may be anything on
the second. -/
class StandIn (β γ : Type) [Bus β] [Bus γ] where
  Alike : β → γ → Prop
  read {b : β} {b' : γ} {size : Size} {addr v : UInt32} :
    Alike b b' → Bus.read b size addr = .ok v → Bus.read b' size addr = .ok v
  write {b b₁ : β} {b' : γ} {size : Size} {addr v : UInt32} :
    Alike b b' → Bus.write size addr v b = .ok () b₁ →
      ∃ b₁', Bus.write size addr v b' = .ok () b₁' ∧ Alike b₁ b₁'

namespace LinearMemory

variable {m : LinearMemory} {addr v : UInt32} {size : Size} {bs : List UInt8} {i k count : Nat}

theorem offset_eq_ok_iff :
    m.offset addr count = .ok i ↔ addr.toNat = m.base.toNat + i ∧ i + count ≤ m.size := by
  have haddr := addr.toNat_lt
  rw [offset_eq_ok, UInt32.lt_iff_toNat_lt, UInt32.toNat_sub]
  constructor
  · rintro ⟨hle, hroom, hi⟩
    omega
  · rintro ⟨hplace, hroom⟩
    omega

theorem byte?_eq_some {b : UInt8} : m.byte? addr = some b ↔
    ∃ j, addr.toNat = m.base.toNat + j ∧ j < m.size ∧ m.byteAt j = b := by
  unfold byte?
  cases hoffset : m.offset addr 1 with
  | ok j =>
    obtain ⟨hplace, hroom⟩ := offset_eq_ok_iff.1 hoffset
    constructor
    · rintro ⟨⟩
      exact ⟨j, hplace, hroom, rfl⟩
    · rintro ⟨j', hplace', -, hb⟩
      obtain rfl : j = j' := by omega
      exact congrArg some hb
  | error e =>
    refine ⟨nofun, ?_⟩
    rintro ⟨j, hplace, hroom, -⟩
    cases hoffset.symm.trans (offset_eq_ok_iff.2 ⟨hplace, hroom⟩)

section Fits

variable (hlimit : m.limit ≤ 2 ^ 32) (hoffset : m.offset addr count = .ok i)

include hlimit hoffset

theorem toNat_add_of_offset (hk : k < count) :
    (addr + UInt32.ofNat k).toNat = m.base.toNat + (i + k) := by
  obtain ⟨hplace, hroom⟩ := offset_eq_ok_iff.1 hoffset
  unfold limit at hlimit
  rw [toNat_add_ofNat (by omega)]
  omega

theorem byte?_of_offset (hk : k < count) :
    m.byte? (addr + UInt32.ofNat k) = some (m.byteAt (i + k)) := by
  have hroom := (offset_eq_ok_iff.1 hoffset).2
  have hplace := toNat_add_of_offset hlimit hoffset hk
  exact byte?_eq_some.2 ⟨i + k, hplace, by omega, rfl⟩

end Fits

theorem byte?_setBytes (hlimit : m.limit ≤ 2 ^ 32) (hoffset : m.offset addr bs.length = .ok i)
    (a : UInt32) : (m.setBytes i bs).byte? a = (bs[(a - addr).toNat]?).or (m.byte? a) := by
  obtain ⟨hplace, hroom⟩ := offset_eq_ok_iff.1 hoffset
  -- the byte at an address is among those written, or was there before
  by_cases hin : (a - addr).toNat < bs.length
  · have ha : addr + UInt32.ofNat (a - addr).toNat = a := by
      rw [UInt32.ofNat_toNat, UInt32.add_comm, UInt32.sub_add_cancel]
    have hplace' := toNat_add_of_offset hlimit hoffset hin
    rw [ha] at hplace'
    rw [List.getElem?_eq_getElem hin, Option.some_or, byte?_eq_some]
    refine ⟨i + (a - addr).toNat, ?_, ?_, ?_⟩
    · rw [base_setBytes]
      exact hplace'
    · rw [size_setBytes]
      omega
    · rw [byteAt_setBytes hroom, if_pos (Nat.le_add_right _ _), Nat.add_sub_cancel_left,
        List.getElem?_eq_getElem hin, Option.getD_some]
  · rw [List.getElem?_eq_none (by omega), Option.none_or]
    unfold byte?
    rw [offset_setBytes]
    cases hj : m.offset a 1 with
    | error e => rfl
    | ok j =>
      obtain ⟨hplace', -⟩ := offset_eq_ok_iff.1 hj
      change some _ = some _
      rw [byteAt_setBytes hroom]
      by_cases hle : i ≤ j
      · have hdistance : (a - addr).toNat = j - i := by
          have ha := a.toNat_lt
          rw [UInt32.toNat_sub]
          omega
        rw [if_pos hle, List.getElem?_eq_none (by omega), Option.getD_none]
      · rw [if_neg hle]

/-- An image of the bytes of a memory that ends with the address space at the latest. -/
structure HasImage (m : LinearMemory) (img : Image) : Prop where
  limit : m.limit ≤ 2 ^ 32
  bytes : ∀ a, img.get? a = m.byte? a

theorem hasImage_ofBytes (hlimit : m.limit ≤ 2 ^ 32) :
    m.HasImage (Image.ofBytes m.base m.toList) where
  limit := hlimit
  bytes a := by
    have hlen : m.toList.length = m.size := by rw [toList, List.length_map, List.length_range]
    have hroom : m.base.toNat + m.size ≤ 2 ^ 32 := hlimit
    have hbase := m.base.toNat_lt
    have ha := a.toNat_lt
    have hempty : Image.empty.get? a = none := Std.ExtTreeMap.getElem?_empty
    rw [Image.ofBytes, Image.get?_writeBytes (by omega), hempty, Option.or_none]
    by_cases hin : (a - m.base).toNat < m.size ∧ m.base.toNat ≤ a.toNat
    · obtain ⟨hin, hle⟩ := hin
      rw [List.getElem?_eq_getElem (by omega), eq_comm, byte?_eq_some]
      refine ⟨(a - m.base).toNat, ?_, hin, ?_⟩
      · rw [UInt32.toNat_sub]
        omega
      · simp only [toList, List.getElem_map, List.getElem_range]
    · -- Below the base, the distance is too large for what room there is.
      have hout : m.size ≤ (a - m.base).toNat := by
        rw [UInt32.toNat_sub] at hin ⊢
        omega
      rw [List.getElem?_eq_none (by omega), eq_comm, Option.eq_none_iff_forall_ne_some]
      intro b hb
      obtain ⟨j, hplace, hj, -⟩ := byte?_eq_some.1 hb
      rw [UInt32.toNat_sub] at hout
      omega

namespace HasImage

variable {m₁ : LinearMemory} {img : Image}

theorem read (h : m.HasImage img) (hread : Bus.read m size addr = .ok v) :
    Bus.read img size addr = .ok v := by
  obtain ⟨i, hi, rfl⟩ := read_eq_ok.1 hread
  refine Image.read_eq_ok.2 ⟨_, ?_, fun k hk => ?_, rfl⟩
  · rw [List.length_map, List.length_range]
  · rw [List.length_map, List.length_range] at hk
    rw [h.bytes, List.getElem_map, List.getElem_range]
    exact byte?_of_offset h.limit hi hk

theorem write (h : m.HasImage img) (hwrite : Bus.write size addr v m = .ok () m₁) :
    ∃ img₁, Bus.write size addr v img = .ok () img₁ ∧ m₁.HasImage img₁ := by
  obtain ⟨i, hi, rfl⟩ := write_eq_ok.1 hwrite
  have hlen := Bus.length_bytes size v
  have hle : size.bytes ≤ 2 ^ 32 := by cases size <;> decide
  refine ⟨img.writeBytes addr (Bus.bytes size v), rfl, ?_, fun a => ?_⟩
  · rw [LinearMemory.limit, base_setBytes, size_setBytes]
    exact h.limit
  · rw [Image.get?_writeBytes (by omega), h.bytes, byte?_setBytes h.limit (hlen ▸ hi)]

end HasImage

instance : StandIn LinearMemory Image where
  Alike := HasImage
  read := HasImage.read
  write := HasImage.write

end LinearMemory

end ColdFire
