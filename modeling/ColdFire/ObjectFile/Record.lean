import ColdFire.ObjectFile.LoadError
import ColdFire.Text.Blank
import ColdFire.Text.Radix

namespace ColdFire

/-- A line that is not blank: its number, the whole of it, and what is left without blanks. -/
structure RecordLine where
  number : Nat
  text : List Char
  body : List Char

namespace RecordLine

def ofText (text : List Char) : List RecordLine :=
  ((Text.lines text).zipIdx 1).filterMap fun (line, number) =>
    let body := Text.trim line
    if body.isEmpty then none else some ⟨number, line, body⟩

def flawed (line : RecordLine) (flaw : RecordFlaw) : LoadError :=
  .malformed line.number line.text flaw

end RecordLine

namespace Record

def pairs : List Char → Except RecordFlaw (List UInt8)
  | a :: b :: rest =>
    match Text.readNat? 16 256 [a, b] with
    | some n => (pairs rest).map (UInt8.ofNat n :: ·)
    | none => .error (.badDigits [a, b])
  | _ => .ok []

def bytes (digits : List Char) : Except RecordFlaw (List UInt8) :=
  if digits.any fun c => 0x80 ≤ c.toNat then .error .nonAscii
  else if digits.length % 2 = 1 then .error .oddDigits
  else pairs digits

def sum (bytes : List UInt8) : UInt8 := bytes.foldl (· + ·) 0

def text (mark : List Char) (bytes : List UInt8) : List Char :=
  mark ++ bytes.flatMap (fun b => Text.upperHexDigits 2 b.toNat) ++ ['\n']

/-- The most data bytes that one written record holds. -/
def width : Nat := 16

def number (bytes : List UInt8) : UInt32 :=
  bytes.foldl (fun n b => (n <<< 8) ||| b.toUInt32) 0

end Record

end ColdFire
