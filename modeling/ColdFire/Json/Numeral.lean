import ColdFire.Json.Number
import ColdFire.Json.Reader
import ColdFire.Text.Shown

namespace ColdFire.Json

/-- The digits of a number that count: those behind the first that would take it beyond 64 bits only
move the point. -/
structure Digits where
  value : Nat := 0
  /-- How many of the digits make up the value. -/
  taken : Nat := 0
  /-- How many have been left out. -/
  dropped : Nat := 0

def Digits.push (known : Digits) (d : Nat) : Digits :=
  let value := 10 * known.value + d
  if known.dropped = 0 ∧ value < 0x10000000000000000 then ⟨value, known.taken + 1, 0⟩
  else { known with dropped := known.dropped + 1 }

namespace Reader

def digitValue (b : UInt8) : Option Nat := Text.digitValue? 10 (Char.ofNat b.toNat)

def peekDigit : Reader (Option Nat) := do return (← peek).bind digitValue

def peekMark (marks : List Char) : Reader Bool := do
  return (← peek).any fun b => marks.any fun c => b == byte c

def digitsOf : List UInt8 → List Nat
  | [] => []
  | b :: rest =>
    match digitValue b with
    | some d => d :: digitsOf rest
    | none => []

def peekDigits : Reader (List Nat) := fun i => .ok (digitsOf i.rest) i

def digits : Reader (List Nat) := do
  let ds ← peekDigits
  ds.forM fun _ => skip
  return ds

def digitsBehind (value : Nat) : Reader Digits := do
  return (← digits).foldl Digits.push { value := value }

/-- Takes off the next digits, which stand in an exponent behind those that make `value`. If it has
to fit, it takes no more than 31 bits; otherwise all that counts is that it takes more. -/
def exponentFrom (mustFit : Bool) : List Nat → Nat → Reader Nat
  | [], value => return value
  | d :: rest, value => do
    skip
    let value := 10 * value + d
    if value < 0x80000000 then exponentFrom mustFit rest value
    else if mustFit then failHere .numberOutOfRange
    else
      let _ ← digits
      return value

def exponent (significand : Nat) : Reader Int := do
  skip
  let negative ← peekMark ['-']
  if ← peekMark ['+', '-'] then skip
  match ← next with
  | none => failHere .endInValue
  | some b =>
    match digitValue b with
    | none => failHere .invalidNumber
    | some d =>
      let value ← exponentFrom (significand ≠ 0 && !negative) (← peekDigits) d
      return if negative then -(value : Int) else value

def doubleFrom (negative : Bool) (significand : Nat) (power : Int) : Reader Number := do
  let more ← if ← peekMark ['e', 'E'] then exponent significand else pure 0
  match Double.ofDecimal? significand (power + more) with
  | some x => return .double negative x
  | none => failHere .numberOutOfRange

def numberFrom (negative : Bool) (integer : Digits) : Reader Number := do
  if ← peekMark ['.'] then
    skip
    let fraction ← digitsBehind integer.value
    if fraction.taken = 0 ∧ fraction.dropped = 0 then
      match ← peek with
      | none => failNext .endInValue
      | some _ => failNext .invalidNumber
    else doubleFrom negative fraction.value (integer.dropped - fraction.taken)
  else if integer.dropped ≠ 0 || (← peekMark ['e', 'E']) then
    doubleFrom negative integer.value integer.dropped
  else
    match Number.ofNat? negative integer.value with
    | some n => return n
    | none => doubleFrom negative integer.value 0

def number (negative : Bool) : Reader Number := do
  match ← next with
  | none => failHere .endInValue
  | some b =>
    match digitValue b with
    | none => failHere .invalidNumber
    | some 0 =>
      if (← peekDigit).isSome then failNext .invalidNumber else numberFrom negative {}
    | some d => numberFrom negative (← digitsBehind d)

def wrongType (expected : String) : Reader α := do
  let wrong (found : String) : Reader α := failHere (.invalidType found expected)
  match (← peek).map fun b => Char.ofNat b.toNat with
  | some 'n' => do skip; word "ull".toUTF8.toList; wrong "null"
  | some 't' => do skip; word "rue".toUTF8.toList; wrong "boolean `true`"
  | some 'f' => do skip; word "alse".toUTF8.toList; wrong "boolean `false`"
  | some '-' => do skip; wrong (← number true).shown
  | some '"' => do skip; wrong ("string " ++ Text.shown (← string))
  | some '[' => wrong "sequence"
  | some '\x7b' => wrong "map"
  | some c => if c.isDigit then wrong (← number false).shown else failNext .expectedValue
  | none => failNext .expectedValue

end Reader

end ColdFire.Json
