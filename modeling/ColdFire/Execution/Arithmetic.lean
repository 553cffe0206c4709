import ColdFire.Instruction.Operation

namespace ColdFire

/-- The result of a shift by 1 to 63 bits, and the last bit that was shifted out. -/
def ShiftKind.apply (kind : ShiftKind) (v : UInt32) (count : UInt32) : UInt32 × Bool :=
  match kind with
  | .asl | .lsl =>
    -- In 64 bits, bit 32 is the last one shifted out, for every count up to 63.
    let wide := v.toUInt64 <<< count.toUInt64
    (wide.toUInt32, (wide >>> 32) &&& 1 != 0)
  | .lsr =>
    let wide := v.toUInt64
    ((wide >>> count.toUInt64).toUInt32, (wide >>> (count - 1).toUInt64) &&& 1 != 0)
  | .asr =>
    let wide := v.toInt32.toInt64
    ((wide >>> count.toUInt64.toInt64).toUInt64.toUInt32,
      (wide >>> (count - 1).toUInt64.toInt64) &&& 1 != 0)

/-- The quotient toward zero and the remainder, if the quotient fits `bits` bits. -/
def divide (dividend divisor : UInt32) (signed : Bool) (bits : Nat) : Option (UInt32 × UInt32) :=
  if signed then
    let a := dividend.toInt32.toInt
    let b := divisor.toInt32.toInt
    let q := a.tdiv b
    let bound : Int := Int.ofNat (1 <<< (bits - 1))
    if -bound ≤ q ∧ q < bound then
      some ((Int32.ofInt q).toUInt32, (Int32.ofInt (a.tmod b)).toUInt32)
    else none
  else
    let q := dividend.toNat / divisor.toNat
    if q < 1 <<< bits then some (UInt32.ofNat q, dividend % divisor) else none

end ColdFire
