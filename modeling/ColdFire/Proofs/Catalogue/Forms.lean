import ColdFire.Catalogue
import ColdFire.Proofs.Instruction.Apart
import ColdFire.Proofs.Instruction.Namesake
import Mathlib.Data.Bool.AllAny

namespace ColdFire

def allPairs {α : Type} (r : α → α → Bool) : List α → Bool
  | [] => true
  | x :: xs => xs.all (r x) && allPairs r xs

theorem pairwise_of_allPairs {α : Type} {r : α → α → Bool} {xs : List α}
    (h : allPairs r xs = true) : xs.Pairwise fun x y => r x y = true := by
  induction xs with
  | nil => exact .nil
  | cons x xs ih =>
    rw [allPairs, Bool.and_eq_true, List.all_eq_true] at h
    exact .cons h.1 (ih h.2)

namespace Format

def alwaysSized (f : Format) : Bool := !f.sizes.isEmpty && f != .tpf

theorem sizes_ne_nil {f : Format} (h : f.alwaysSized = true) : f.sizes ≠ [] := by
  intro hnil
  rw [alwaysSized, hnil] at h
  cases h

end Format

namespace Definition

def names (d : Definition) : List String := d.mnemonic :: d.aliases

/-- Whether no name tells two definitions apart, or the requests under it do. -/
def toldApart (d e : Definition) : Bool :=
  !(d.names.any fun name => e.names.contains name) ||
    d.format.alwaysSized && e.format.alwaysSized && d.clashes e

end Definition

namespace Catalogue

theorem regular : ∀ d ∈ all, d.Regular := List.all_iff_forall_prop.mp rfl

theorem lower_name : ∀ d ∈ all, ∀ name ∈ d.names, Text.lower name.toList = name.toList := by
  decide +kernel

theorem toldApart : all.Pairwise fun d e => d.toldApart e = true :=
  pairwise_of_allPairs (by decide +kernel)

theorem apart : all.Pairwise fun d e => d.apart e = true :=
  pairwise_of_allPairs (by decide +kernel)

end Catalogue

end ColdFire
