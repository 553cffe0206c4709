import ColdFire.Json.Numeral

namespace ColdFire.Json.Reader

def skipEscape : Reader Unit := do
  match ← next with
  | none => failHere .endInString
  | some b =>
    if b = byte 'u' then
      let _ ← hexQuad
    else if "\"\\/bfnrt".toList.any fun c => b == byte c then pure ()
    else failHere .invalidEscape

def skipStringFrom : Nat → Reader Unit
  | 0 => failHere .endInString
  | fuel + 1 => do
    match ← peek with
    | none => failHere .endInString
    | some b =>
      if b = byte '"' then skip
      else if b = byte '\\' then
        skip
        skipEscape
        skipStringFrom fuel
      else if b < 0x20 then failHere .controlCharacter
      else
        skip
        skipStringFrom fuel

def skipString : Reader Unit := do
  skip
  skipStringFrom ((← remaining) + 1)

def skipSomeDigits : Reader Unit := do
  match (← next).bind digitValue with
  | none => failHere .invalidNumber
  | some _ =>
    let _ ← digits

def skipExponent : Reader Unit := do
  if ← peekMark ['e', 'E'] then
    skip
    if ← peekMark ['+', '-'] then skip
    skipSomeDigits

def skipNumber : Reader Unit := do
  if ← peekMark ['0'] then
    skip
    if (← peekDigit).isSome then failNext .invalidNumber
  else skipSomeDigits
  if ← peekMark ['.'] then
    skip
    if (← digits).isEmpty then failNext .invalidNumber
  skipExponent

/-- What closes the brackets that are open around a value: `true` for a list. -/
abbrev Enclosing := List Bool

/-- Goes on behind a value that is skipped: closes brackets, or moves on to the next value. Gives
the brackets that are then open, or none at the end. -/
def skipBehind (comma : Bool) : Enclosing → Reader (Option Enclosing)
  | [] => return none
  | inList :: outer => do
    let close := byte (if inList then ']' else '}')
    match ← peekToken with
    | none => failNext (if inList then .endInList else .endInObject)
    | some b =>
      if comma && b = byte ',' then
        skip
        return some (inList :: outer)
      else if b = close then
        skip
        skipBehind true outer
      else if comma then failNext (if inList then .expectedListEnd else .expectedObjectEnd)
      else return some (inList :: outer)

def colon : Reader Unit := do
  match ← peekToken with
  | none => failNext .endInObject
  | some b => if b = byte ':' then skip else failNext .expectedColon

def skipKey : Reader Unit := do
  match ← peekToken with
  | none => failNext .endInObject
  | some b =>
    if b = byte '"' then
      skipString
      colon
    else failNext .keyNotText

def skipValues : Nat → Enclosing → Reader Unit
  | 0, _ => pure ()
  | fuel + 1, outer => do
    let behind ← match (← peekToken).map fun b => Char.ofNat b.toNat with
      | none => failNext .endInValue
      | some 'n' => do skip; word "ull".toUTF8.toList; skipBehind true outer
      | some 't' => do skip; word "rue".toUTF8.toList; skipBehind true outer
      | some 'f' => do skip; word "alse".toUTF8.toList; skipBehind true outer
      | some '-' => do skip; skipNumber; skipBehind true outer
      | some '"' => do skipString; skipBehind true outer
      | some '[' => do skip; skipBehind false (true :: outer)
      | some '{' => do skip; skipBehind false (false :: outer)
      | some c =>
        if c.isDigit then
          skipNumber
          skipBehind true outer
        else failNext .expectedValue
    match behind with
    | none => pure ()
    | some inner =>
      if inner.head? = some false then skipKey
      skipValues fuel inner

/-- Skips a value of any kind. Only its form counts: its strings need not stand for any characters,
nor its numbers have a size. -/
def skipValue : Reader Unit := do skipValues ((← remaining) + 1) []

end ColdFire.Json.Reader
