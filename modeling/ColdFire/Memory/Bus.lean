import ColdFire.Word.Size

namespace ColdFire

/-- A memory. A read has no effect; a write gives the memory after it, also when it fails. -/
class Bus (β : Type) where
  read : β → Size → UInt32 → Except String UInt32
  write : Size → UInt32 → UInt32 → EStateM String β Unit

namespace Bus

/-- The bytes of a value, the high byte first. -/
def bytes (size : Size) (v : UInt32) : List UInt8 :=
  match size with
  | .byte => [v.toUInt8]
  | .word => [(v >>> 8).toUInt8, v.toUInt8]
  | .long => [(v >>> 24).toUInt8, (v >>> 16).toUInt8, (v >>> 8).toUInt8, v.toUInt8]

def value (bytes : List UInt8) : UInt32 :=
  bytes.foldl (fun v b => (v <<< 8) ||| b.toUInt32) 0

end Bus

end ColdFire
