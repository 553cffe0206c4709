import ColdFire.Memory.Image
import ColdFire.ObjectFile.Record

namespace ColdFire.IntelHex

structure Progress where
  image : Image := .empty
  upper : UInt32 := 0
  ended : Bool := false

/-- A record behind its colon: the length of the data, 16 bits of address, the type, the data, and a
byte that makes the sum of all of them zero. -/
structure Content where
  offset : UInt32
  type : UInt8
  data : List UInt8

def Content.ofBytes (line : RecordLine) : List UInt8 → Except LoadError Content
  | count :: high :: low :: type :: rest =>
    if rest.isEmpty then .error (line.flawed .short)
    -- What follows the type are the data and the byte that makes the sum zero.
    else if rest.length ≠ count.toNat + 1 then
      .error (line.flawed (.dataLength count.toNat (rest.length - 1)))
    else
      let sum := Record.sum (count :: high :: low :: type :: rest)
      if sum = 0 then .ok ⟨Record.number [high, low], type, rest.dropLast⟩
      else
        let found := rest.getLastD 0
        .error (.checksum line.number (found - sum) found)
  | _ => .error (line.flawed .short)

def Content.ofLine (line : RecordLine) : Except LoadError Content :=
  match Text.afterMark? [':'] line.body with
  | none => .error (line.flawed (.noMark ':'))
  | some digits =>
    match Record.bytes digits with
    | .error flaw => .error (line.flawed flaw)
    | .ok bytes => Content.ofBytes line bytes

def apply (line : RecordLine) (content : Content) (p : Progress) : Except LoadError Progress :=
  match content.type, content.data with
  | 0, data => .ok { p with image := p.image.writeBytes (p.upper + content.offset) data }
  | 1, _ => .ok { p with ended := true }
  | 2, [a, b] => .ok { p with upper := Record.number [a, b] <<< 4 }
  | 3, [a, b, c, d] =>
    let start := (Record.number [a, b] <<< 4) + Record.number [c, d]
    .ok { p with image := { p.image with start := some start } }
  | 4, [a, b] => .ok { p with upper := Record.number [a, b] <<< 16 }
  | 5, [a, b, c, d] =>
    .ok { p with image := { p.image with start := some (Record.number [a, b, c, d]) } }
  | 2, _ => .error (line.flawed (.typeLength 2 2))
  | 3, _ => .error (line.flawed (.typeLength 3 4))
  | 4, _ => .error (line.flawed (.typeLength 4 2))
  | 5, _ => .error (line.flawed (.typeLength 5 4))
  | type, _ =>
    .error (.recordType line.number (String.ofList (Text.upperHexDigits 2 type.toNat)))

def readLine (p : Progress) (line : RecordLine) : Except LoadError Progress :=
  if p.ended then .error (line.flawed .afterEnd)
  else (Content.ofLine line).bind fun content => apply line content p

/-- The image that a text holds. The first record at fault refuses the whole text. -/
def parse (text : String) : Except LoadError Image := do
  let p ← (RecordLine.ofText text.toList).foldlM readLine {}
  if p.ended then return p.image else throw .missingEnd

def line (type : UInt8) (offset : UInt16) (data : List UInt8) : List Char :=
  let bytes := UInt8.ofNat data.length :: Bus.bytes .word offset.toUInt32 ++ type :: data
  Record.text [':'] (bytes ++ [-Record.sum bytes])

/-- How many of `n` bytes from `addr` on the next record takes: no record crosses a multiple of
64 KiB. -/
def share (addr : UInt32) (n : Nat) : Nat :=
  min (min n Record.width) (0x10000 - addr.toNat % 0x10000)

theorem share_pos (addr : UInt32) {n : Nat} (h : 0 < n) : 0 < share addr n := by
  have := Nat.mod_lt addr.toNat (y := 0x10000) (by decide)
  simp only [share, Record.width]
  omega

def shares (addr : UInt32) (bytes : List UInt8) : List (UInt32 × List UInt8) :=
  match bytes with
  | [] => []
  | b :: rest =>
    let n := share addr (b :: rest).length
    (addr, (b :: rest).take n) :: shares (addr + UInt32.ofNat n) ((b :: rest).drop n)
termination_by bytes.length
decreasing_by
  have := share_pos addr (show 0 < (b :: rest).length by simp)
  simp only [List.length_drop, List.length_cons] at *
  omega

/-- The lines for runs of bytes, with a record for the upper address wherever that changes. -/
def dataLines (upper : Option UInt16) : List (UInt32 × List UInt8) → List Char
  | [] => []
  | (addr, bytes) :: rest =>
    let high := (addr >>> 16).toUInt16
    let turn := if upper = some high then [] else line 4 0 (Bus.bytes .word high.toUInt32)
    turn ++ line 0 addr.toUInt16 bytes ++ dataLines (some high) rest

def save (img : Image) : String :=
  let runs := img.segments.flatMap fun s => shares s.base s.bytes.toList
  let start := match img.start with
    | some addr => line 5 0 (Bus.bytes .long addr)
    | none => []
  String.ofList (dataLines none runs ++ start ++ line 1 0 [])

end ColdFire.IntelHex
