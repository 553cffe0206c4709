import ColdFire.Memory.Bus
import ColdFire.Text.Number
import Std.Data.ExtTreeMap

namespace ColdFire

abbrev NonzeroBytes := Std.ExtTreeMap Nat UInt8 compare

/-- Memory without gaps. A byte is kept only if it is not zero, so that two memories with the same
bytes are equal, and a large one takes no more room than its contents. -/
structure LinearMemory where
  base : UInt32
  size : Nat
  nonzero : NonzeroBytes
  nonzero_valid : ∀ i b, nonzero[i]? = some b → i < size ∧ b ≠ 0

namespace LinearMemory

def zeroed (size : Nat) (base : UInt32) : LinearMemory where
  base := base
  size := size
  nonzero := ∅
  nonzero_valid := by simp

def limit (m : LinearMemory) : Nat := m.base.toNat + m.size

/-- Where `count` bytes from an address on stand, if all of them are in memory. -/
def offset (m : LinearMemory) (addr : UInt32) (count : Nat) : Except String Nat :=
  if addr < m.base ∨ (addr - m.base).toNat + count > m.size then
    .error (s!"address {Text.hex 8 addr.toNat} (+{count}) outside memory " ++
      s!"[{Text.hex 8 m.base.toNat}, {Text.hex 1 m.limit})")
  else .ok (addr - m.base).toNat

def byteAt (m : LinearMemory) (i : Nat) : UInt8 := m.nonzero[i]?.getD 0

def toList (m : LinearMemory) : List UInt8 := (List.range m.size).map m.byteAt

theorem valid_insert {nonzero : NonzeroBytes} {size i : Nat} {b : UInt8}
    (valid : ∀ j c, nonzero[j]? = some c → j < size ∧ c ≠ 0) (h : i < size ∧ b ≠ 0) :
    ∀ j c, (nonzero.insert i b)[j]? = some c → j < size ∧ c ≠ 0 := by
  intro j c hc
  rw [Std.ExtTreeMap.getElem?_insert] at hc
  split at hc
  · rename_i heq
    cases Nat.compare_eq_eq.mp heq
    cases Option.some.inj hc
    exact h
  · exact valid j c hc

theorem valid_erase {nonzero : NonzeroBytes} {size : Nat} (i : Nat)
    (valid : ∀ j c, nonzero[j]? = some c → j < size ∧ c ≠ 0) :
    ∀ j c, (nonzero.erase i)[j]? = some c → j < size ∧ c ≠ 0 := by
  intro j c hc
  rw [Std.ExtTreeMap.getElem?_erase] at hc
  split at hc
  · exact nomatch hc
  · exact valid j c hc

def setByte (m : LinearMemory) (i : Nat) (b : UInt8) : LinearMemory :=
  let ⟨base, size, nonzero, valid⟩ := m
  if h : i < size ∧ b ≠ 0 then ⟨base, size, nonzero.insert i b, valid_insert valid h⟩
  else ⟨base, size, nonzero.erase i, valid_erase i valid⟩

theorem byteAt_setByte (m : LinearMemory) (i j : Nat) (b : UInt8) :
    (m.setByte i b).byteAt j = if i = j ∧ j < m.size then b else m.byteAt j := by
  have hend : m.size ≤ j → m.byteAt j = 0 := by
    intro h
    cases hj : m.nonzero[j]? with
    | none => simp [byteAt, hj]
    | some c => exact absurd (m.nonzero_valid j c hj).1 (by omega)
  simp only [setByte]
  split
  · simp only [byteAt, Std.ExtTreeMap.getElem?_insert, Nat.compare_eq_eq]
    grind
  · simp only [byteAt, Std.ExtTreeMap.getElem?_erase, Nat.compare_eq_eq] at *
    grind

def setBytes (m : LinearMemory) (i : Nat) : List UInt8 → LinearMemory
  | [] => m
  | b :: rest => (m.setByte i b).setBytes (i + 1) rest

def read (m : LinearMemory) (size : Size) (addr : UInt32) : Except String UInt32 := do
  let i ← m.offset addr size.bytes
  return Bus.value ((List.range size.bytes).map fun k => m.byteAt (i + k))

def write (size : Size) (addr v : UInt32) : EStateM String LinearMemory Unit := fun m =>
  match m.offset addr size.bytes with
  | .ok i => .ok () (m.setBytes i (Bus.bytes size v))
  | .error e => .error e m

instance : Bus LinearMemory := ⟨read, write⟩

end LinearMemory

end ColdFire
