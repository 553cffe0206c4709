import ColdFire.Instruction.Decode
import ColdFire.Proofs.Catalogue.Forms
import ColdFire.Proofs.Instruction.WordSource

namespace ColdFire

variable {f : Format} {mnemonic name : String} {ops : Operands} {s : WordSource} {c c' : Cursor}

namespace Format

/-- The names that a format gives, other than the mnemonic. -/
def ownNames : Format → List String
  | mulLong => ["muls", "mulu"]
  | divLong => ["divs", "divu", "rems", "remu"]
  | _ => []

theorem read_sizedEa {isDst : Bool}
    (h : (sizedEa isDst).read mnemonic s c = .ok (name, ops) c') :
    name = mnemonic ∧ ∃ size ea, Ea.readLow size s c = .ok ea c' ∧
      ops = if isDst then ⟨some size, none, some ea⟩ else ⟨some size, some ea, none⟩ := by
  simp only [read, Decoder.opcode_bind] at h
  cases hbits : Size.ofBits? (Field.size.get s.opcode) with
  | none =>
    rw [hbits] at h
    exact absurd h Decoder.undecodable_ne_ok
  | some size =>
    rw [hbits] at h
    simp only [Decoder.bind_eq_ok, Decoder.pure_eq_ok] at h
    obtain ⟨ea, _, hea, hops, rfl⟩ := h
    cases hops
    exact ⟨rfl, size, ea, hea, rfl⟩

theorem read_name (h : f.read mnemonic s c = .ok (name, ops) c') :
    name = mnemonic ∨ name ∈ f.ownNames := by
  cases f with
  | sizedEa _ => exact .inl (read_sizedEa h).1
  | _ =>
    simp only [read, Decoder.opcode_bind, Decoder.bind_eq_ok] at h
    grind [Decoder.bind_eq_ok, Decoder.pure_eq_ok, Decoder.reserved_ne_ok, ownNames]

theorem read_size (h : f.read mnemonic s c = .ok (name, ops) c') (hf : f.alwaysSized = true) :
    ops.size ≠ none := by
  cases f with
  | sizedEa isDst =>
    obtain ⟨-, size, ea, -, rfl⟩ := read_sizedEa h
    cases isDst <;> exact nofun
  | tpf | lea | pea | unlk | jump | bare | immWord | vector | cachePush | cacheTouch | loadStatus =>
    cases hf
  | _ =>
    simp only [read, Decoder.opcode_bind, Decoder.bind_eq_ok] at h
    grind [Decoder.bind_eq_ok, Decoder.pure_eq_ok, Decoder.reserved_ne_ok]

end Format

namespace Catalogue

theorem ownNames_mem : ∀ d ∈ all, ∀ name ∈ d.format.ownNames, name ∈ d.names := by
  decide +kernel

theorem names_own : ∀ d ∈ all, d.format.ownNames ≠ [] → ∀ name ∈ d.names, name ∈ d.format.ownNames := by
  decide +kernel

end Catalogue

end ColdFire
