import ColdFire.Memory.Image
import ColdFire.ObjectFile.Record

namespace ColdFire.SRecord

structure Progress where
  image : Image := .empty
  dataRecords : UInt32 := 0

def addressWidth? : Char → Option Nat
  | '0' | '1' | '5' | '9' => some 2
  | '2' | '6' | '8' => some 3
  | '3' | '7' => some 4
  | _ => none

/-- A record behind its type digit: the count of the bytes that follow, an address whose width the type
tells, the data, and the complement of the sum of all bytes before it. -/
structure Content where
  type : Char
  address : UInt32
  data : List UInt8

def Content.ofBytes (line : RecordLine) (type : Char) (width : Nat) :
    List UInt8 → Except LoadError Content
  | [] => .error (line.flawed .short)
  | count :: rest =>
    if rest.length ≠ count.toNat ∨ count.toNat < width + 1 then
      .error (line.flawed (.countByte count.toNat))
    else
      let expected := ~~~Record.sum (count :: rest.dropLast)
      let found := rest.getLastD 0
      if expected = found then
        .ok ⟨type, Record.number (rest.take width), (rest.drop width).dropLast⟩
      else .error (.checksum line.number expected found)

/-- The name of a type that no record has: `S` and the first byte of what follows. -/
def typeName (c : Char) : String :=
  String.ofList ['S', Char.ofNat ((String.utf8EncodeChar c).headD 0).toNat]

def Content.ofLine (line : RecordLine) : Except LoadError Content :=
  match Text.afterMark? ['S'] line.body with
  | none => .error (line.flawed (.noMark 'S'))
  | some [] => .error (line.flawed .noType)
  | some (type :: digits) =>
    match addressWidth? type with
    | none => .error (.recordType line.number (typeName type))
    | some width =>
      match Record.bytes digits with
      | .error flaw => .error (line.flawed flaw)
      | .ok bytes => Content.ofBytes line type width bytes

def apply (line : RecordLine) (content : Content) (p : Progress) : Except LoadError Progress :=
  match content.type with
  | '0' => .ok p
  | '1' | '2' | '3' =>
    .ok ⟨p.image.writeBytes content.address content.data, p.dataRecords + 1⟩
  | '5' | '6' =>
    if content.address = p.dataRecords then .ok p
    else .error (line.flawed (.recordCount content.address p.dataRecords))
  | _ => .ok { p with image := { p.image with start := some content.address } }

def readLine (p : Progress) (line : RecordLine) : Except LoadError Progress :=
  (Content.ofLine line).bind fun content => apply line content p

def parse (text : String) : Except LoadError Image :=
  ((RecordLine.ofText text.toList).foldlM readLine {}).map (·.image)

def line (type : Char) (width : Nat) (address : UInt32) (data : List UInt8) : List Char :=
  let bytes := UInt8.ofNat (width + data.length + 1) ::
    (Bus.bytes .long address).drop (4 - width) ++ data
  Record.text ['S', type] (bytes ++ [~~~Record.sum bytes])

structure Shape where
  data : Char
  final : Char
  width : Nat

/-- The narrowest records for addresses up to `top`. -/
def shape (top : Nat) : Shape :=
  if top ≤ 0xFFFF then ⟨'1', '9', 2⟩
  else if top ≤ 0xFFFFFF then ⟨'2', '8', 3⟩
  else ⟨'3', '7', 4⟩

def shares (addr : UInt32) (bytes : List UInt8) : List (UInt32 × List UInt8) :=
  match bytes with
  | [] => []
  | b :: rest =>
    (addr, (b :: rest).take Record.width) ::
      shares (addr + UInt32.ofNat Record.width) ((b :: rest).drop Record.width)
termination_by bytes.length
decreasing_by simp only [Record.width, List.length_drop, List.length_cons]; omega

def countLine (n : UInt32) : List Char :=
  if n ≤ 0xFFFF then line '5' 2 n [] else line '6' 3 n []

def top (img : Image) : Nat :=
  let last := match img.bounds? with
    | some (_, limit) => limit - 1
    | none => 0
  max last (img.start.getD 0).toNat

def save (img : Image) (header : String) : String :=
  let shape := shape (top img)
  let runs := img.segments.flatMap fun s => shares s.base s.bytes.toList
  String.ofList <|
    line '0' 2 0 header.toUTF8.toList ++
    runs.flatMap (fun (addr, bytes) => line shape.data shape.width addr bytes) ++
    countLine (UInt32.ofNat runs.length) ++
    line shape.final shape.width (img.start.getD 0) []

end ColdFire.SRecord
