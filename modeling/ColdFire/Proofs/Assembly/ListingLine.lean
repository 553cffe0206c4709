import ColdFire.Instruction.Text
import ColdFire.Proofs.Assembly.Legible
import ColdFire.Proofs.Assembly.StatementText
import ColdFire.Proofs.Memory.Image
import ColdFire.Proofs.Registry.Decoded

namespace ColdFire

open Text Assembly

namespace Decoded

variable {d : Decoded} {ea : Ea}

def operands (d : Decoded) : List Ea := d.src.toList ++ d.dst.toList

/-- What the assembler reads in the text of an operand: for a branch displacement the address that it
leads to. -/
def written (d : Decoded) : Ea → Operand
  | .relative off => .bare (.ofInt (d.address + 2 + off.toUInt32).toNat)
  | ea => ea.written

def operandChars (d : Decoded) : List (List Char) :=
  d.operands.map fun ea => (d.operandText ea).toList

theorem toList_text : d.text.toList = Line.instruction d.mnemonic d.size d.operandChars := by
  have hops : [d.src, d.dst].filterMap id = d.operands := by
    rw [operands]
    cases d.src <;> cases d.dst <;> rfl
  have hjoined : (",".intercalate (d.operands.map d.operandText)).toList =
      [','].intercalate d.operandChars := by
    rw [String.toList_intercalate, List.map_map]
    rfl
  have hempty : (d.operands.map d.operandText).isEmpty = true ↔ d.operandChars = [] := by
    simp [operandChars]
  unfold text Line.instruction Statement.word
  dsimp only
  rw [hops]
  by_cases hnil : d.operandChars = []
  · rw [if_pos (hempty.2 hnil), if_pos hnil]
    cases d.size <;> simp
  · rw [if_neg (mt hempty.1 hnil), if_neg hnil]
    cases d.size <;> simp [hjoined]

/-- An operand that a listing shows as what it is, or a displacement that it shows as an address. -/
def Shows (ea : Ea) : Prop := ea.Legible ∨ ∃ off, ea = .relative off

theorem written_of_legible (h : ea.Legible) : d.written ea = ea.written := by
  cases ea with
  | relative _ => exact h.elim
  | _ => rfl

theorem operandText_of_legible (h : ea.Legible) : d.operandText ea = ea.text := by
  cases ea with
  | relative _ => exact h.elim
  | _ => rfl

theorem parse_operandText (h : Shows ea) :
    Operand.parse (d.operandText ea).toList = .ok (d.written ea) := by
  rcases h with h | ⟨off, rfl⟩
  · rw [operandText_of_legible h, written_of_legible h, Operand.parse_text h]
  · exact Operand.parse_bare (Operand.numeral_long _) Text.hex_subset

theorem layout_operandText (h : Shows ea) : Operand.Layout (d.operandText ea).toList := by
  rcases h with h | ⟨off, rfl⟩
  · rw [operandText_of_legible h]
    exact .text h
  · have hplain := Text.hex_subset (n := (d.address + 2 + off.toUInt32).toNat)
    exact .of_parse (Operand.parse_bare (Operand.numeral_long _) hplain)
      (List.Subset.trans hplain (List.Subset.trans plain_subset_innerInk innerInk_subset_outerInk))
      fun hmem => absurd (hplain hmem) (by decide)

section Line

variable (hname : IsMnemonic d.mnemonic) (hshows : ∀ ea ∈ d.operands, Shows ea)

include hshows

theorem layout_operandChars : ∀ t ∈ d.operandChars, Operand.Layout t := by
  intro t ht
  obtain ⟨ea, hea, rfl⟩ := List.mem_map.mp ht
  exact layout_operandText (hshows ea hea)

include hname

theorem text_subset : d.text.toList ⊆ ' ' :: ink := by
  rw [toList_text]
  exact Line.instruction_subset hname (layout_operandChars hshows)

/-- The assembler reads the line of an instruction as that instruction. -/
theorem parse_text (number : Nat) : Line.parse number d.text.toList =
    .ok ⟨number, none, some (.instruction d.mnemonic d.size (d.operands.map d.written))⟩ := by
  have hops : d.operandChars.mapM Operand.parse = .ok (d.operands.map d.written) := by
    rw [Image.mapM_eq_ok, operandChars, List.forall₂_map_left_iff, List.forall₂_map_right_iff,
      List.forall₂_same]
    exact fun ea hea => parse_operandText (hshows ea hea)
  rw [toList_text]
  exact Line.parse_instruction hname (layout_operandChars hshows) hops number

end Line

end Decoded

namespace Catalogue

theorem isMnemonic : ∀ d ∈ all, ∀ name ∈ d.names, IsMnemonic name := by
  have hall : ∀ d ∈ all, (d.names.all fun name =>
      name != "" && name != "dc" && name.toList.all fun c => c.isLower || c.isDigit) = true := by
    decide +kernel
  intro d hd name hname
  have hchecked := List.all_eq_true.mp (hall d hd) name hname
  rw [Bool.and_eq_true, Bool.and_eq_true, bne_iff_ne, bne_iff_ne, List.all_eq_true] at hchecked
  obtain ⟨⟨hne, hdata⟩, hchars⟩ := hchecked
  exact ⟨hne, fun c hc => mem_plain (hchars c hc), hdata⟩
end Catalogue

end ColdFire
