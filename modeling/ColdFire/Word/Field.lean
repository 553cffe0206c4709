namespace ColdFire

/-- A run of `width` bits that starts at bit `shift`. Bit 0 is the least significant. -/
structure Field where
  shift : Nat
  width : Nat
deriving DecidableEq

namespace Field

/-- The largest number that fits a field, which is also its mask at bit 0. -/
def limit (f : Field) : Nat := 1 <<< f.width - 1

def mask (f : Field) : UInt16 := UInt16.ofNat f.limit <<< UInt16.ofNat f.shift

def get (f : Field) (word : UInt16) : UInt16 :=
  (word >>> UInt16.ofNat f.shift) &&& UInt16.ofNat f.limit

/-- A 16-bit word with one field replaced; bits of `value` beyond the field are dropped. -/
def set (f : Field) (word value : UInt16) : UInt16 :=
  (word &&& ~~~f.mask) ||| ((value <<< UInt16.ofNat f.shift) &&& f.mask)

def mask32 (f : Field) : UInt32 := UInt32.ofNat f.limit <<< UInt32.ofNat f.shift

def get32 (f : Field) (word : UInt32) : UInt32 :=
  (word >>> UInt32.ofNat f.shift) &&& UInt32.ofNat f.limit

def set32 (f : Field) (word value : UInt32) : UInt32 :=
  (word &&& ~~~f.mask32) ||| ((value <<< UInt32.ofNat f.shift) &&& f.mask32)

end Field

/-- The low `bits` bits of `v` as a signed number, widened to 32 bits. -/
def signExtend (v : UInt32) (bits : Nat) : UInt32 :=
  let room := Int32.ofNat (32 - bits)
  ((v <<< UInt32.ofNat (32 - bits)).toInt32 >>> room).toUInt32

end ColdFire
