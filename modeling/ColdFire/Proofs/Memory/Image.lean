import ColdFire.Memory.Image
import ColdFire.Proofs.Instruction.Demand
import ColdFire.Proofs.Word.Width
import Mathlib.Algebra.Group.Nat.Defs
import Mathlib.Data.List.Forall2

namespace ColdFire

namespace Image

variable {img img' : Image} {addr v : UInt32} {size : Size} {bs : List UInt8}

theorem get?_set (img : Image) (addr a : UInt32) (b : UInt8) :
    (img.set addr b).get? a = if a = addr then some b else img.get? a := by
  have hinsert : (img.bytes.insert addr b)[a]? =
      if compare addr a = .eq then some b else img.bytes[a]? := Std.ExtTreeMap.getElem?_insert
  by_cases heq : a = addr
  · rw [if_pos heq]
    exact hinsert.trans (if_pos (Std.LawfulEqCmp.compare_eq_iff_eq.mpr heq.symm))
  · rw [if_neg heq]
    exact hinsert.trans (if_neg fun h => heq (Std.LawfulEqCmp.compare_eq_iff_eq.mp h).symm)

@[simp] theorem start_writeBytes (img : Image) (addr : UInt32) (bs : List UInt8) :
    (img.writeBytes addr bs).start = img.start := by
  induction bs generalizing img addr with
  | nil => rfl
  | cons b rest ih =>
    rw [writeBytes, ih]
    rfl

theorem writeBytes_append (img : Image) (addr : UInt32) (bs cs : List UInt8) :
    img.writeBytes addr (bs ++ cs) =
      (img.writeBytes addr bs).writeBytes (addr + UInt32.ofNat bs.length) cs := by
  induction bs generalizing img addr with
  | nil => exact congrArg (img.writeBytes · cs) (UInt32.add_zero addr).symm
  | cons b rest ih =>
    have hnext : addr + UInt32.ofNat (rest.length + 1) =
        addr + 1 + UInt32.ofNat rest.length := add_ofNat_add addr rest.length 1
    rw [List.cons_append, writeBytes, ih, writeBytes, List.length_cons, hnext]

theorem get?_writeBytes (h : bs.length ≤ 2 ^ 32) (a : UInt32) :
    (img.writeBytes addr bs).get? a = (bs[(a - addr).toNat]?).or (img.get? a) := by
  induction bs generalizing img addr with
  | nil => rfl
  | cons b rest ih =>
    rw [List.length_cons] at h
    rw [writeBytes, ih (by omega), get?_set]
    by_cases heq : a = addr
    · have hlast : (a - (addr + 1)).toNat = 2 ^ 32 - 1 := by
        have := addr.toNat_lt
        rw [heq, UInt32.toNat_sub, UInt32.toNat_add]
        change (2 ^ 32 - (addr.toNat + 1) % 2 ^ 32 + addr.toNat) % 2 ^ 32 = 2 ^ 32 - 1
        omega
      have hfirst : (a - addr).toNat = 0 := by
        rw [heq, UInt32.sub_self]
        rfl
      rw [if_pos heq, hlast, hfirst, List.getElem?_eq_none (by omega)]
      rfl
    · have hnext : (a - addr).toNat = (a - (addr + 1)).toNat + 1 := by
        have := a.toNat_lt
        have := addr.toNat_lt
        have hne : a.toNat ≠ addr.toNat := fun h => heq (UInt32.toNat_inj.mp h)
        rw [UInt32.toNat_sub, UInt32.toNat_sub, UInt32.toNat_add]
        change (2 ^ 32 - addr.toNat + a.toNat) % 2 ^ 32 =
          (2 ^ 32 - (addr.toNat + 1) % 2 ^ 32 + a.toNat) % 2 ^ 32 + 1
        omega
      rw [if_neg heq, hnext, List.getElem?_cons_succ]

theorem ext_get? (hstart : img.start = img'.start) (h : ∀ a, img.get? a = img'.get? a) :
    img = img' := by
  have hbytes : img.bytes = img'.bytes := Std.ExtTreeMap.ext_getElem? h
  cases img
  cases img'
  cases hstart
  cases hbytes
  rfl

theorem byte_eq_ok {b : UInt8} : img.byte addr = .ok b ↔ img.get? addr = some b := by
  unfold byte
  cases img.get? addr with
  | none => simp
  | some c => simp

theorem mapM_eq_ok {α β ε : Type} {f : α → Except ε β} {xs : List α} {ys : List β} :
    xs.mapM f = .ok ys ↔ List.Forall₂ (fun x y => f x = .ok y) xs ys := by
  induction xs generalizing ys with
  | nil =>
    rw [List.mapM_nil, except_pure_eq_ok, List.forall₂_nil_left_iff, eq_comm]
  | cons x rest ih =>
    rw [List.mapM_cons, except_bind_eq_ok]
    constructor
    · rintro ⟨y, hy, h⟩
      obtain ⟨ys, hys, h⟩ := except_bind_eq_ok.1 h
      obtain rfl := except_pure_eq_ok.1 h
      exact .cons hy (ih.1 hys)
    · intro h
      obtain ⟨y, ys, hy, hys, rfl⟩ := List.forall₂_cons_left_iff.mp h
      exact ⟨y, hy, except_bind_eq_ok.2 ⟨ys, ih.2 hys, rfl⟩⟩

theorem mapM_range_eq_ok {ε β : Type} {f : Nat → Except ε β} {n : Nat} {ys : List β} :
    (List.range n).mapM f = .ok ys ↔
      ys.length = n ∧ ∀ k (hk : k < ys.length), f k = .ok ys[k] := by
  rw [mapM_eq_ok, List.forall₂_iff_get]
  simp only [List.length_range, List.get_eq_getElem, List.getElem_range]
  constructor
  · rintro ⟨hlen, h⟩
    exact ⟨hlen.symm, fun k hk => h k (by omega) hk⟩
  · rintro ⟨hlen, h⟩
    exact ⟨hlen.symm, fun k _ hk => h k hk⟩

theorem read_eq_ok : img.read size addr = .ok v ↔ ∃ bs : List UInt8, bs.length = size.bytes ∧
    (∀ k (hk : k < bs.length), img.get? (addr + UInt32.ofNat k) = some bs[k]) ∧
    Bus.value bs = v := by
  rw [read, except_bind_eq_ok]
  constructor
  · rintro ⟨bs, hbs, hv⟩
    obtain ⟨hlen, hget⟩ := mapM_range_eq_ok.1 hbs
    exact ⟨bs, hlen, fun k hk => byte_eq_ok.1 (hget k hk), except_pure_eq_ok.1 hv⟩
  · rintro ⟨bs, hlen, hget, hv⟩
    refine ⟨bs, mapM_range_eq_ok.2 ⟨hlen, fun k hk => byte_eq_ok.2 (hget k hk)⟩, ?_⟩
    exact except_pure_eq_ok.2 hv

/-- The bytes that stood somewhere, mapped there again, undo whatever was mapped in between. -/
theorem writeBytes_writeBytes {cs : List UInt8} (hlen : bs.length = cs.length)
    (hle : bs.length ≤ 2 ^ 32)
    (hbs : ∀ k (hk : k < bs.length), img.get? (addr + UInt32.ofNat k) = some bs[k]) :
    (img.writeBytes addr cs).writeBytes addr bs = img := by
  apply ext_get?
  · rw [start_writeBytes, start_writeBytes]
  · intro a
    rw [get?_writeBytes hle, get?_writeBytes (by omega)]
    by_cases hin : (a - addr).toNat < bs.length
    · have ha : addr + UInt32.ofNat (a - addr).toNat = a := by
        rw [UInt32.ofNat_toNat]
        rw [UInt32.add_comm, UInt32.sub_add_cancel]
      have hb := hbs _ hin
      rw [ha] at hb
      rw [List.getElem?_eq_getElem hin, hb]
      rfl
    · rw [List.getElem?_eq_none (by omega), List.getElem?_eq_none (by omega)]
      rfl

end Image

end ColdFire
