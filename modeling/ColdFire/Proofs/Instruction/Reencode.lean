import ColdFire.Proofs.Instruction.Reencode.Arithmetic
import ColdFire.Proofs.Instruction.Reencode.System
import ColdFire.Proofs.Instruction.Reencode.Transfer

namespace ColdFire

namespace Definition

variable {d : Definition} {s : WordSource} {c : Cursor} {name : String} {ops : Operands}

/-- A displacement of zero is the one operand that can be decoded and not be encoded. -/
theorem recovers (hd : d.Regular) (hfits : d.fits s.opcode = true)
    (haccepts : d.format.accepts s.opcode = true) (hzero : ops.src ≠ some (.relative 0))
    (h : d.format.read d.mnemonic s .start = .ok (name, ops) c) :
    d.Recovers s name ops c.consumed := by
  -- format by format, each of which has its lemma under `Reencode`
  cases hf : d.format with
  | eaToData _ => exact recovers_eaToData hd hfits h hf
  | dataToEa => exact recovers_dataToEa hd hfits h hf
  | eaToAddr _ => exact recovers_eaToAddr hd hfits h hf
  | immToData _ => exact recovers_immToData hd hfits h hf
  | quick _ => exact recovers_quick hd hfits h hf
  | dataPair => exact recovers_dataPair hd hfits h hf
  | dataReg _ => exact recovers_dataReg hd hfits h hf
  | sizedEa _ => exact recovers_sizedEa hd hfits h hf
  | shift => exact recovers_shift hd hfits h hf
  | bitInReg => exact recovers_bitInReg hd hfits h hf
  | bitInWord => exact recovers_bitInWord hd hfits h hf
  | mulLong => exact recovers_mulLong hd hfits h hf
  | divLong => exact recovers_divLong hd hfits h hf
  | move _ _ => exact recovers_move hd hfits h haccepts hf
  | moveq => exact recovers_moveq hd hfits h hf
  | moveExtend => exact recovers_moveExtend hd hfits h hf
  | listToEa => exact recovers_listToEa hd hfits h hf
  | eaToList => exact recovers_eaToList hd hfits h hf
  | lea => exact recovers_lea hd hfits h hf
  | pea => exact recovers_pea hd hfits h hf
  | link => exact recovers_link hd hfits h hf
  | unlk => exact recovers_unlk hd hfits h hf
  | branch => exact recovers_branch hd hfits h hzero hf
  | longBranch => exact recovers_longBranch hd hfits h hzero hf
  | tpf => exact recovers_tpf hd hfits h hf
  | jump => exact recovers_jump hd hfits h hf
  | bare => exact recovers_bare hd hfits h hf
  | immWord => exact recovers_immWord hd hfits h hf
  | vector => exact recovers_vector hd hfits h hf
  | toSpecial _ => exact recovers_toSpecial hd hfits h hf
  | fromSpecial _ => exact recovers_fromSpecial hd hfits h hf
  | toUsp => exact recovers_toUsp hd hfits h hf
  | fromUsp => exact recovers_fromUsp hd hfits h hf
  | control => exact recovers_control hd hfits h hf
  | cachePush => exact recovers_cachePush hd hfits h hf
  | cacheTouch => exact recovers_cacheTouch hd hfits h hf
  | loadStatus => exact recovers_loadStatus hd hfits h hf

end Definition

end ColdFire
