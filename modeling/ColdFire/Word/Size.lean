namespace ColdFire

inductive Size where
  | byte | word | long
deriving DecidableEq, Inhabited

namespace Size

def bytes : Size → Nat
  | byte => 1
  | word => 2
  | long => 4

def bits (s : Size) : Nat := 8 * s.bytes

def mask : Size → UInt32
  | byte => 0xFF
  | word => 0xFFFF
  | long => 0xFFFFFFFF

def msb : Size → UInt32
  | byte => 0x80
  | word => 0x8000
  | long => 0x80000000

def signExtend (s : Size) (v : UInt32) : UInt32 :=
  match s with
  | byte => v.toUInt8.toInt8.toInt32.toUInt32
  | word => v.toUInt16.toInt16.toInt32.toUInt32
  | long => v

/-- The size field that most sized opcodes share; its fourth value names no size. -/
def ofBits? (v : UInt16) : Option Size :=
  match (v &&& 3).toNat with
  | 0 => some byte
  | 1 => some word
  | 2 => some long
  | _ => none

def toBits : Size → UInt16
  | byte => 0
  | word => 1
  | long => 2

def letter : Size → Char
  | byte => 'b'
  | word => 'w'
  | long => 'l'

/-- The size that a letter names. A short branch, `s`, is one with a byte displacement. -/
def ofLetter? (c : Char) : Option Size :=
  match c.toLower with
  | 'b' | 's' => some byte
  | 'w' => some word
  | 'l' => some long
  | _ => none

end Size

end ColdFire
