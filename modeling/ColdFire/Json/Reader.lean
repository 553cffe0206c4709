import ColdFire.Json.ReadError
import ColdFire.Text.Radix
import ColdFire.Text.Utf8

namespace ColdFire.Json

structure Input where
  rest : List UInt8
  position : Position := {}

abbrev Reader := EStateM ReadError Input

def byte (c : Char) : UInt8 := UInt8.ofNat c.toNat

def Position.after (p : Position) (b : UInt8) : Position :=
  if b = byte '\n' then ⟨p.line + 1, 0⟩ else ⟨p.line, p.column + 1⟩

namespace Reader

def peek : Reader (Option UInt8) := fun i => .ok i.rest.head? i

def next : Reader (Option UInt8) := fun i =>
  match i.rest with
  | [] => .ok none i
  | b :: rest => .ok (some b) ⟨rest, i.position.after b⟩

def skip : Reader Unit := do let _ ← next

def failHere (flaw : Flaw) : Reader α := fun i => .error ⟨flaw, i.position⟩ i

def failNext (flaw : Flaw) : Reader α := fun i =>
  let position := match i.rest with
    | [] => i.position
    | b :: _ => i.position.after b
  .error ⟨flaw, position⟩ i

/-- How many bytes are left; no loop takes more rounds. -/
def remaining : Reader Nat := fun i => .ok i.rest.length i

def isBlank (b : UInt8) : Bool :=
  b == byte ' ' || b == byte '\n' || b == byte '\t' || b == byte '\r'

def blanksFrom (position : Position) : List UInt8 → Input
  | [] => ⟨[], position⟩
  | b :: rest => if isBlank b then blanksFrom (position.after b) rest else ⟨b :: rest, position⟩

def peekToken : Reader (Option UInt8) := fun i =>
  let i := blanksFrom i.position i.rest
  .ok i.rest.head? i

def word : List UInt8 → Reader Unit
  | [] => pure ()
  | b :: rest => do
    match ← next with
    | none => failHere .endInValue
    | some c => if c = b then word rest else failHere .expectedIdent

def hexQuad : Reader Nat := fun i =>
  match i.rest with
  | a :: b :: c :: d :: rest =>
    let after : Input := ⟨rest, [a, b, c, d].foldl Position.after i.position⟩
    match Text.digits? 16 ([a, b, c, d].map fun x => Char.ofNat x.toNat) with
    | some n => .ok n after
    | none => .error ⟨.invalidEscape, after.position⟩ after
  | rest =>
    let after : Input := ⟨[], rest.foldl Position.after i.position⟩
    .error ⟨.endInString, after.position⟩ after

def pairMark (c : Char) : Reader Unit := do
  match ← next with
  | none => failHere .endInString
  | some b => if b = byte c then pure () else failHere .endInEscape

/-- The character of a hexadecimal escape, or of a pair of them. -/
def hexEscape : Reader Char := do
  let n ← hexQuad
  if 0xDC00 ≤ n ∧ n ≤ 0xDFFF then failHere .loneSurrogate
  else if n < 0xD800 ∨ 0xDBFF < n then return Char.ofNat n
  else
    -- A leading half is of use only together with a trailing one.
    pairMark '\\'
    pairMark 'u'
    let m ← hexQuad
    if m < 0xDC00 ∨ 0xDFFF < m then failHere .loneSurrogate
    else return Char.ofNat (0x10000 + 0x400 * (n - 0xD800) + (m - 0xDC00))

def escape : Reader Char := do
  match ← next with
  | none => failHere .endInString
  | some b =>
    match Char.ofNat b.toNat with
    | '"' => return '"'
    | '\\' => return '\\'
    | '/' => return '/'
    | 'b' => return '\x08'
    | 'f' => return '\x0c'
    | 'n' => return '\n'
    | 'r' => return '\r'
    | 't' => return '\t'
    | 'u' => hexEscape
    | _ => failHere .invalidEscape

/-- The bytes of a string up to its closing quote; `done` holds those before, the latest first. -/
def stringFrom : Nat → List UInt8 → Reader (List UInt8)
  | 0, _ => failHere .endInString
  | fuel + 1, done => do
    match ← next with
    | none => failHere .endInString
    | some b =>
      if b = byte '"' then return done.reverse
      else if b = byte '\\' then
        let c ← escape
        stringFrom fuel ((String.utf8EncodeChar c).reverse ++ done)
      else if b < 0x20 then failHere .controlCharacter
      else stringFrom fuel (b :: done)

def string : Reader String := do
  let bytes ← stringFrom ((← remaining) + 1) []
  return Text.ofUtf8Lossy bytes

end Reader

end ColdFire.Json
