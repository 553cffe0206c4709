import ColdFire.Proofs.Execution.Change
import ColdFire.Proofs.Memory.Lawful

namespace ColdFire

def Trap.IsBusError (t : Trap) : Prop := ∃ addr cause, t = .bus addr cause

variable {β : Type}

section Bus

variable [Bus β] {b b' : β} {size : Size} {addr v : UInt32} {t : Trap}

theorem fetch_eq_ok : fetch b size addr = .ok v ↔ Bus.read b size addr = .ok v := by
  unfold fetch
  cases Bus.read b size addr with
  | ok w => simp
  | error cause => simp

theorem store_eq_ok : store size addr v b = .ok () b' ↔ Bus.write size addr v b = .ok () b' := by
  unfold store
  cases Bus.write size addr v b with
  | ok _ bus => simp
  | error cause bus => simp

theorem store_error [LawfulBus β] (h : store size addr v b = .error t b') : b' = b := by
  unfold store at h
  split at h
  · cases h
  · rename_i hwrite
    cases h
    exact LawfulBus.failed_write hwrite

theorem byte?_store [ByteBus β] (h : store size addr v b = .ok () b') {a : UInt32}
    (ha : ∀ k < size.bytes, a ≠ addr + UInt32.ofNat k) : ByteBus.byte? b' a = ByteBus.byte? b a :=
  ByteBus.byte?_write (store_eq_ok.1 h) a ha

theorem store_back [LawfulBus β] {old : UInt32} (hold : fetch b size addr = .ok old)
    (h : store size addr v b = .ok () b') : store size addr old b' = .ok () b := by
  have hwrite := store_eq_ok.1 h
  obtain ⟨b'', hback⟩ := LawfulBus.permitted hwrite old
  have hsame := LawfulBus.write_back (fetch_eq_ok.1 hold) hwrite hback
  rw [← hsame]
  exact store_eq_ok.2 hback

theorem rollback_cons {w : MemoryWrite} {earlier : List MemoryWrite}
    (h : store w.size w.addr w.old b = .ok () b') :
    rollback (w :: earlier) b = rollback earlier b' := by
  change (store w.size w.addr w.old >>= fun _ => rollback earlier) b = _
  simp only [bind, EStateM.bind, h]

theorem isBusError_of_fetch (h : fetch b size addr = .error t) : t.IsBusError := by
  unfold fetch at h
  split at h
  · cases h
  · cases h
    exact ⟨_, _, rfl⟩

theorem isBusError_of_store (h : store size addr v b = .error t b') : t.IsBusError := by
  unfold store at h
  split at h
  · cases h
  · cases h
    exact ⟨_, _, rfl⟩

theorem isBusError_of_rollback {journal : List MemoryWrite} (h : rollback journal b = .error t b') :
    t.IsBusError := by
  induction journal generalizing b with
  | nil => cases h
  | cons w earlier ih =>
    cases hstore : store w.size w.addr w.old b with
    | ok u b₁ =>
      rw [rollback_cons hstore] at h
      exact ih h
    | error t₁ b₁ =>
      change (store w.size w.addr w.old >>= fun _ => rollback earlier) b = _ at h
      simp only [bind, EStateM.bind, hstore] at h
      cases h
      exact isBusError_of_store hstore

end Bus

namespace WordSource

theorem isBusError_inMemory [Bus β] {bus : β} {opcode : UInt16} {address : UInt32} {i : Nat}
    {t : Trap} (h : (inMemory bus opcode address).extension i = .error t) : t.IsBusError := by
  simp only [inMemory] at h
  cases hfetch : fetch bus .word (address + 2 + UInt32.ofNat (2 * i)) with
  | ok w =>
    rw [hfetch] at h
    cases h
  | error t' =>
    rw [hfetch] at h
    cases h
    exact isBusError_of_fetch hfetch

end WordSource

namespace Context

variable [Bus β] {p : Permit} {c c' : Context β} {b : β}

/-- Taking back the writes that were noted gives `b`. -/
def Undoes (c : Context β) (b : β) : Prop := rollback c.journal c.bus = .ok () b

/-- A write is noted with what it overwrote, so that it is the first to be taken back. -/
theorem Change.undoes [LawfulBus β] (h : c.Change p c') (hc : c.Undoes b) : c'.Undoes b := by
  cases h with
  | flags _ | data _ _ | addr _ _ | system _ _ _ | jump _ _ => exact hc
  | write _ overwrites writes => exact (rollback_cons (store_back overwrites writes)).trans hc
  -- a lawful bus is as it was after a write that failed
  | refused fails =>
    rw [store_error fails]
    exact hc

theorem Changes.undoes [LawfulBus β] (h : c.Changes p c') (hc : c.Undoes b) : c'.Undoes b := by
  induction h with
  | refl => exact hc
  | tail _ hlast ih => exact hlast.undoes ih

end Context

end ColdFire
