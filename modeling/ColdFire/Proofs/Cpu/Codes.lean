import ColdFire.Cpu.Flags
import ColdFire.Execution.Perform
import ColdFire.Proofs.Instruction.Opword

namespace ColdFire

namespace Cpu

/-- Nothing but condition codes differ. -/
def AgreesButCodes (cpu cpu' : Cpu) : Prop :=
  ∃ sr, cpu' = { cpu with sr := sr } ∧
    sr &&& ~~~Status.conditionCodes = cpu.sr &&& ~~~Status.conditionCodes

variable {cpu : Cpu}

theorem AgreesButCodes.refl (cpu : Cpu) : cpu.AgreesButCodes cpu := ⟨cpu.sr, rfl, rfl⟩

theorem AgreesButCodes.trans {cpu' cpu'' : Cpu} (h : cpu.AgreesButCodes cpu')
    (h' : cpu'.AgreesButCodes cpu'') : cpu.AgreesButCodes cpu'' := by
  obtain ⟨sr, rfl, hsr⟩ := h
  obtain ⟨sr', rfl, hsr'⟩ := h'
  exact ⟨sr', rfl, hsr'.trans hsr⟩

theorem agreesButCodes_setFlag {f : Flag} (hf : f.mask &&& ~~~Status.conditionCodes = 0)
    (on : Bool) : cpu.AgreesButCodes (cpu.setFlag f on) := by
  refine ⟨_, rfl, ?_⟩
  unfold Flag.put
  split
  · exact or_and_of_and_eq_zero hf
  · have hkeep : ~~~f.mask &&& ~~~Status.conditionCodes = ~~~Status.conditionCodes := by
      cases f <;> first | rfl | exact absurd hf (by decide)
    rw [UInt16.and_assoc, hkeep]

theorem agreesButCodes_setArithFlags (result a b : UInt32) (size : Size) (chained : Bool)
    (op : AluOp) : cpu.AgreesButCodes (cpu.setArithFlags result a b size chained op) := by
  unfold setArithFlags
  have hzero (cpu : Cpu) (on : Bool) : cpu.AgreesButCodes
      (if chained then if result &&& size.mask = 0 then cpu else cpu.setFlag .zero false
        else cpu.setFlag .zero on) := by
    split
    · split
      · exact .refl _
      · exact agreesButCodes_setFlag rfl _
    · exact agreesButCodes_setFlag rfl _
  have hcodes (carry overflow on on' : Bool) : cpu.AgreesButCodes
      (((if chained then if result &&& size.mask = 0 then cpu.setFlag .negative on
        else (cpu.setFlag .negative on).setFlag .zero false
        else (cpu.setFlag .negative on).setFlag .zero on').setFlag .overflow overflow).setFlag
          .carry carry) :=
    (((agreesButCodes_setFlag rfl _).trans (hzero _ _)).trans (agreesButCodes_setFlag rfl _)).trans
      (agreesButCodes_setFlag rfl _)
  dsimp only
  split
  · exact hcodes _ _ _ _
  · exact (hcodes _ _ _ _).trans (agreesButCodes_setFlag rfl _)

theorem agreesButCodes_setLogicFlags (result : UInt32) (size : Size) :
    cpu.AgreesButCodes (cpu.setLogicFlags result size) :=
  (((agreesButCodes_setFlag rfl _).trans (agreesButCodes_setFlag rfl _)).trans
    (agreesButCodes_setFlag rfl _)).trans (agreesButCodes_setFlag rfl _)

theorem agreesButCodes_setDivFlags (quotient : Option UInt32) (size : Size) :
    cpu.AgreesButCodes (cpu.setDivFlags quotient size) := by
  cases quotient with
  | some q => exact agreesButCodes_setLogicFlags q size
  | none => exact (agreesButCodes_setFlag rfl _).trans (agreesButCodes_setFlag rfl _)

theorem agreesButCodes_setCcr (value : UInt8) : cpu.AgreesButCodes (cpu.setCcr value) := by
  refine ⟨_, rfl, ?_⟩
  have hcodes : value.toUInt16 &&& Status.conditionCodes &&& ~~~Status.conditionCodes = 0 := by
    rw [UInt16.and_assoc, UInt16.and_not_self, UInt16.and_zero]
  rw [or_and_of_and_eq_zero hcodes, UInt16.and_assoc, UInt16.and_self]

end Cpu

end ColdFire
