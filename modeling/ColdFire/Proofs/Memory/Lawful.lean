import ColdFire.Proofs.Memory.Bytes
import ColdFire.Proofs.Memory.Image
import ColdFire.Proofs.Memory.Linear

namespace ColdFire

/-- A bus that changes by writes alone, and that can be changed back. -/
class LawfulBus (β : Type) [Bus β] : Prop where
  failed_write {size : Size} {addr v : UInt32} {b b' : β} {cause : String} :
    Bus.write size addr v b = .error cause b' → b' = b
  /-- What may be written once may be written again, whatever the value. -/
  permitted {size : Size} {addr v : UInt32} {b b' : β} :
    Bus.write size addr v b = .ok () b' → ∀ w, ∃ b'', Bus.write size addr w b' = .ok () b''
  write_back {size : Size} {addr v old : UInt32} {b b' b'' : β} :
    Bus.read b size addr = .ok old → Bus.write size addr v b = .ok () b' →
      Bus.write size addr old b' = .ok () b'' → b'' = b

/-- A bus that gives no more bits than were asked for. -/
class SizedBus (β : Type) [Bus β] : Prop where
  read_lt {b : β} {size : Size} {addr v : UInt32} :
    Bus.read b size addr = .ok v → v.toNat < 2 ^ size.bits

/-- A bus with bytes at addresses, of which a write changes only those that it covers. -/
class ByteBus (β : Type) [Bus β] where
  byte? : β → UInt32 → Option UInt8
  byte?_write {size : Size} {addr v : UInt32} {b b' : β} :
    Bus.write size addr v b = .ok () b' → ∀ a, (∀ k < size.bytes, a ≠ addr + UInt32.ofNat k) →
      byte? b' a = byte? b a

namespace LinearMemory

instance : LawfulBus LinearMemory where
  failed_write h := write_error h
  permitted h w := by
    obtain ⟨i, hi, rfl⟩ := write_eq_ok.1 h
    exact ⟨_, write_eq_ok.2 ⟨i, by rw [offset_setBytes]; exact hi, rfl⟩⟩
  write_back {size addr v old b b' b''} hread hwrite hback := by
    obtain ⟨i, hi, rfl⟩ := read_eq_ok.1 hread
    obtain ⟨j, hj, rfl⟩ := write_eq_ok.1 hwrite
    obtain ⟨k, hk, rfl⟩ := write_eq_ok.1 hback
    rw [offset_setBytes, hi] at hk
    rw [hi] at hj
    cases hj
    cases hk
    have hlen : ((List.range size.bytes).map fun k => b.byteAt (i + k)).length = size.bytes := by
      rw [List.length_map, List.length_range]
    obtain ⟨-, hroom, hoff⟩ := offset_eq_ok.1 hi
    rw [Bus.bytes_value hlen]
    apply setBytes_setBytes
    · rw [hlen]
      omega
    · rw [hlen, Bus.length_bytes]
    · intro k hk
      rw [List.getElem_map, List.getElem_range]

instance : SizedBus LinearMemory where
  read_lt h := by
    obtain ⟨i, -, rfl⟩ := read_eq_ok.1 h
    exact Bus.value_lt (by rw [List.length_map, List.length_range])

def byte? (m : LinearMemory) (addr : UInt32) : Option UInt8 :=
  match m.offset addr 1 with
  | .ok i => some (m.byteAt i)
  | .error _ => none

instance : ByteBus LinearMemory where
  byte? := byte?
  byte?_write {size addr v b b'} h a ha := by
    obtain ⟨i, hi, rfl⟩ := write_eq_ok.1 h
    obtain ⟨-, hroom, hoff⟩ := offset_eq_ok.1 hi
    unfold byte?
    rw [offset_setBytes]
    cases hj : b.offset a 1 with
    | error e => rfl
    | ok j =>
      obtain ⟨-, -, hoff'⟩ := offset_eq_ok.1 hj
      have hlen := Bus.length_bytes size v
      change some _ = some _
      rw [byteAt_setBytes (by omega)]
      by_cases hle : i ≤ j
      · have hin : ¬ j - i < size.bytes := by
          intro hin
          refine ha (j - i) hin ?_
          have := a.toNat_lt
          have := addr.toNat_lt
          have := b.base.toNat_lt
          rw [UInt32.toNat_sub] at hoff hoff'
          rw [← UInt32.toNat_inj, UInt32.toNat_add, UInt32.toNat_ofNat']
          change (2 ^ 32 - b.base.toNat + addr.toNat) % 2 ^ 32 = i at hoff
          change (2 ^ 32 - b.base.toNat + a.toNat) % 2 ^ 32 = j at hoff'
          omega
        rw [if_pos hle, List.getElem?_eq_none (by omega)]
        rfl
      · rw [if_neg hle]

end LinearMemory

namespace Image

instance : LawfulBus Image where
  failed_write h := nomatch h
  permitted _ _ := ⟨_, rfl⟩
  write_back {size addr v old b b' b''} hread hwrite hback := by
    obtain ⟨bs, hlen, hget, rfl⟩ := read_eq_ok.1 hread
    cases hwrite
    cases hback
    have hle : size.bytes ≤ 2 ^ 32 := by cases size <;> decide
    rw [Bus.bytes_value hlen]
    apply writeBytes_writeBytes
    · rw [hlen, Bus.length_bytes]
    · rw [hlen]
      exact hle
    · exact hget

instance : SizedBus Image where
  read_lt h := by
    obtain ⟨bs, hlen, -, rfl⟩ := read_eq_ok.1 h
    exact Bus.value_lt hlen

instance : ByteBus Image where
  byte? := get?
  byte?_write {size addr v b b'} h a ha := by
    cases h
    have hlen := Bus.length_bytes size v
    have hle : size.bytes ≤ 2 ^ 32 := by cases size <;> decide
    rw [get?_writeBytes (by omega)]
    have hout : ¬ (a - addr).toNat < size.bytes := by
      intro hin
      refine ha _ hin ?_
      rw [UInt32.ofNat_toNat, UInt32.add_comm, UInt32.sub_add_cancel]
    rw [List.getElem?_eq_none (by omega)]
    rfl

end Image

/-- A bus of which some bytes are never written. -/
structure Protected (β : Type) where
  bus : β
  readOnly : UInt32 → Bool

namespace Protected

variable {β : Type} [Bus β]

def refuses (p : Protected β) (size : Size) (addr : UInt32) : Bool :=
  (List.range size.bytes).any fun k => p.readOnly (addr + UInt32.ofNat k)

def write (size : Size) (addr v : UInt32) : EStateM String (Protected β) Unit := fun p =>
  if p.refuses size addr then .error "read-only memory" p
  else
    match Bus.write size addr v p.bus with
    | .ok _ bus => .ok () ⟨bus, p.readOnly⟩
    | .error cause bus => .error cause ⟨bus, p.readOnly⟩

instance : Bus (Protected β) := ⟨fun p => Bus.read p.bus, write⟩

theorem write_eq_ok {size : Size} {addr v : UInt32} {p q : Protected β} :
    Bus.write size addr v p = .ok () q ↔ p.refuses size addr = false ∧
      ∃ bus, Bus.write size addr v p.bus = .ok () bus ∧ ⟨bus, p.readOnly⟩ = q := by
  change write size addr v p = _ ↔ _
  unfold write
  cases p.refuses size addr with
  | true => simp
  | false =>
    cases Bus.write size addr v p.bus with
    | ok _ bus => simp
    | error cause bus => simp

instance [LawfulBus β] : LawfulBus (Protected β) where
  failed_write {size addr v b b' cause} h := by
    change write size addr v b = _ at h
    unfold write at h
    split at h
    · cases h
      rfl
    · split at h
      · cases h
      · rename_i hwrite
        cases h
        rw [LawfulBus.failed_write hwrite]
  permitted {size addr v b b'} h w := by
    obtain ⟨hopen, bus, hwrite, rfl⟩ := write_eq_ok.1 h
    obtain ⟨bus', hwrite'⟩ := LawfulBus.permitted hwrite w
    exact ⟨_, write_eq_ok.2 ⟨hopen, bus', hwrite', rfl⟩⟩
  write_back {size addr v old b b' b''} hread hwrite hback := by
    have hread : Bus.read b.bus size addr = .ok old := hread
    obtain ⟨-, bus, hbus, rfl⟩ := write_eq_ok.1 hwrite
    obtain ⟨-, bus', hbus', rfl⟩ := write_eq_ok.1 hback
    rw [LawfulBus.write_back hread hbus hbus']

instance [SizedBus β] : SizedBus (Protected β) where
  read_lt {p _ _ _} h := SizedBus.read_lt (b := p.bus) h

end Protected

end ColdFire
