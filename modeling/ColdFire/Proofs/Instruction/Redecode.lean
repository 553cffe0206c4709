import ColdFire.Proofs.Instruction.Redecode.Arithmetic
import ColdFire.Proofs.Instruction.Redecode.System
import ColdFire.Proofs.Instruction.Redecode.Transfer

namespace ColdFire

namespace Definition

variable {d : Definition} {s : WordSource} {n : Nat} {name : String} {ops : Operands} {e : Encoding}

/-- Where a format names itself, the request must go by one of its names. -/
theorem rereads (hd : d.Regular) (hregs : ops.RegistersExist)
    (hname : d.format.ownNames ≠ [] → d.Named name) (h : d.plan name ops = .ok e)
    (hop : e.opword = s.opcode) (hstand : Ext.Stand s e.ext 0 n) : d.Rereads s name ops n := by
  -- format by format, each of which has its lemma under `Redecode`
  cases hf : d.format with
  | eaToData _ => exact rereads_eaToData hd hregs h hop hstand hf
  | dataToEa => exact rereads_dataToEa hd hregs h hop hstand hf
  | eaToAddr _ => exact rereads_eaToAddr hd hregs h hop hstand hf
  | immToData _ => exact rereads_immToData hd hregs h hop hstand hf
  | quick _ => exact rereads_quick hd hregs h hop hstand hf
  | dataPair => exact rereads_dataPair hd hregs h hop hstand hf
  | dataReg _ => exact rereads_dataReg hd hregs h hop hstand hf
  | sizedEa _ => exact rereads_sizedEa hd hregs h hop hstand hf
  | shift => exact rereads_shift hd hregs h hop hstand hf
  | bitInReg => exact rereads_bitInReg hd hregs h hop hstand hf
  | bitInWord => exact rereads_bitInWord hd hregs h hop hstand hf
  | mulLong => exact rereads_mulLong hd hregs h hop hstand (hname (by rw [hf]; decide)) hf
  | divLong => exact rereads_divLong hd hregs h hop hstand (hname (by rw [hf]; decide)) hf
  | move _ _ => exact rereads_move hd hregs h hop hstand hf
  | moveq => exact rereads_moveq hd hregs h hop hstand hf
  | moveExtend => exact rereads_moveExtend hd hregs h hop hstand hf
  | listToEa => exact rereads_listToEa hd hregs h hop hstand hf
  | eaToList => exact rereads_eaToList hd hregs h hop hstand hf
  | lea => exact rereads_lea hd hregs h hop hstand hf
  | pea => exact rereads_pea hd hregs h hop hstand hf
  | link => exact rereads_link hd hregs h hop hstand hf
  | unlk => exact rereads_unlk hd hregs h hop hstand hf
  | branch => exact rereads_branch hd h hop hstand hf
  | longBranch => exact rereads_longBranch hd h hop hstand hf
  | tpf => exact rereads_tpf hd h hop hstand hf
  | jump => exact rereads_jump hd hregs h hop hstand hf
  | bare => exact rereads_bare hd h hop hstand hf
  | immWord => exact rereads_immWord hd h hop hstand hf
  | vector => exact rereads_vector hd h hop hstand hf
  | toSpecial _ => exact rereads_toSpecial hd hregs h hop hstand hf
  | fromSpecial _ => exact rereads_fromSpecial hd hregs h hop hstand hf
  | toUsp => exact rereads_toUsp hd hregs h hop hstand hf
  | fromUsp => exact rereads_fromUsp hd hregs h hop hstand hf
  | control => exact rereads_control hd hregs h hop hstand hf
  | cachePush => exact rereads_cachePush hd hregs h hop hstand hf
  | cacheTouch => exact rereads_cacheTouch hd hregs h hop hstand hf
  | loadStatus => exact rereads_loadStatus hd h hop hstand hf

end Definition

end ColdFire
